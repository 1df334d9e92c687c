import Seepage.Text.Ranges

set_option autoImplicit false

namespace Seepage.Text

def wideRanges : List (Nat × Nat) := readRanges
  "GLkDrCJtaEIwbobHjdeadaUcbwbBzlBsauaoajbsbgbjagawaibcafadaiafbBdaBkacafccaCkczapaBHcbCaafaBFfzcDk
  nIfBbCfhodDhfDwgBqcBycBpcDfmBvcBnjKKdCnBGUeeCcBTiBcYuQNrMQnTrBEfjxBicscdFuDrEygBQKodnbpJBzjBVpBr
  iNFsdcgcbcLeqaBecdapdjPfXCzaHvaHjadjDycoBrfiibpfFzBgnicCrcvnBqfenqeaeCscacHedCkodcxtaBbboaDjDgBx
  CrhaecdcfdmbiiIulfaKyBucjcHcEjmeiiBtcgjnfiiiBXoDSYndDSYn"

def zeroWidthRanges : List (Nat × Nat) := readRanges
  "EyBfoaWxEhKqgKeBscacbcbcaCkalkcaBvuraDygdfdbcdBiacaBfBaDokChikazdciccceBscCbbhhBrCeCeacafhfaeglb
  BeaChacaddjakalbBbadbCgafbfbdceaBfbeambCgafecbfavbxfcaChacbcdjaiclbBfaCiacanakaBpaeaCeaccgccdibm
  bBeaChadbcaeccdibmbBdbCgbcaddjbjalbBeaCvafadccajaDeadgnhDvadimgCwbBcacacaCencecbgkcBjkaDzdcfcbdb
  BabfcrdoadbhaqaHnGdNmcBKlcBebBfbBfbCnbcgjadkkaBueEobBjaEpcfbkahcImbdaChacgcacadhhjdaBxBeBydBxjfb
  BoinbBhddbccCfacbeaccChhdbFxccmcgfahaebHrClUeeBbeBypDtBgEOdcJfBfVjfEcbHuaBSIldcjBhbDdbKnaeafaBab
  gaFwbBbrjafaBnhBakBvcBxadddbBoaCqfdbdbnajaBwaCaaccdbgbcaBrbjaJfadafaQOxwfBwNHzaBCkprpIaaGdcDciTx
  aItaFueCMhccbgdBpcfaGkbWcdOybDdcCtkBydEuaCdoBqadblcByddbiaCkcBlechClanbCbiebgddaDscdacbhadaGcaeh
  wbCgbcacaxapgeeHohdccayaDeadfcadacbcbJcaddhbcbBcbDihdacbEdacadfcaDycddceKaicbJmalbcbcacaFpddbfaB
  hjBpfcejakfdcBpscbPrgcfcaDfvdgcbcbEtfeacbciCvbeacaNkbmcCaegacaHYsahoURreCigBOjaCmdDeaBDBlbcdGYvB
  tdwUxaccfudgBfdFtcCYeCcfBxjapaxecoCAjgcqdgcbceDxaGfgOmaCkdTpdBMfgEggBTBZaGBn"

def displayWidth (c : Char) : Nat :=
  if c == '\t' then 4
  else if c.val < 32 || c.val == 127 then 0
  else if c.val < 127 then 1
  else if c.val == 0x17d8 then 3
  else if within zeroWidthRanges c.toNat then 0
  else if within wideRanges c.toNat then 2
  else 1

def codeUnits (c : Char) : Nat :=
  if c.val < 0x10000 then 1 else 2

def columnStep (c : Char) : Nat :=
  codeUnits c - 1 + displayWidth c

end Seepage.Text
