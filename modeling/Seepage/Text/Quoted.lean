import Seepage.Text.Ranges

set_option autoImplicit false

namespace Seepage.Text

def unseenRanges : List (Nat × Nat) := readRanges
  "ExBhnaWxEhjbhdiacavaIrgGlaBnbBzbeBtcacbcbciBcdhqlkcaBvuraDyhcfdbcdBhbcaBfBcDmkcnBsiiczdcicccgqaB
  aecameBgqBrCeCeacafhfaeglbBeadajbdbxaiaccfccadfdbdacmdaedzecahddbxaiadadaddexfacglbeaclcakaeaxai
  adagcfhcadccoddngchdajbdbxaiadagccbcfdbdodaedtkcahceafcdacadcdcecnecadceaeccuwfeajaeayarcccfsebc
  bddlglamaeayalagcdbcadxdaddlaenmaeaBqbcadeeaeaddealdBbbdatczakacbiidfiglbelBxadkjhoBkdacagazacal
  adicbgacilbfBfzbBcacacapaBlrcecbgBwjahaoBkBudcfcbdbBabfcrdoadbhaqaBpacecbOoafbiacafbBqafbBiafbia
  cafbqaCgafbCqeBecBbfDjbhbYraBdcDmgtmucditnoaeoCbbcgjadkkclflfmelfDmggbBjaceCtjBgdfbeddahgccBrbgk
  BtdBbfmcCgbdcCfacicadhhmlflfpDhBxjfcjaBeinbBhddfCfacbeacmBxhdeqcCleBsbmkcmcgfahaebceHlClKtbhbBnb
  hbjacacacaBgbCcaqapbhaubeakqzhBwqdbBcaocBiCkFldZrvmuCRtbBhaNhcdeBuacecbCfgdoyiiaiaiaiaiaiaiaiBgD
  rBhBbaDmlIhzraBqfraDjdDyeBsaDraDjiBxaBRIscCeiNltBwdcjBhbDdbhhHzbdacajuraeafaBabgdlfCfhCrjnxoaBnh
  BakclBffBxadddbdaoamdiaBaaBqfdbdkeajacblbBhaCaaccdbgbcacxsbjkhbhbhiiaiaCjdEoadafclfQNtlydByMNbOd
  bEdBlilgecazagacadadaEwpRebCdgcBfrplvBkauafdgaFgdGcbBgchbhbhbeciaimdbnaBbauadaqbpBhEueedBucDlaoc
  cBuBuFaBecBypBcdBliBfeBnjBfaBmdpBpGdblfBldBldBphCbknaqaiadamaqaiadcCblMaixjjxhaBrakCqhbcaBtadccb
  yaCvhkBvuadeBicBcecClCfdvbBwofaeaBejkgkgCnBfBmfniCdcBebBceBbgfliDbCwCcCamCagBrllfBnhzhdHzBgaBrcc
  bdpeCgBphxkkvtdfBlBdtyicaCdoidBfadbclByddbdafnBagliBlecithBkaekCbicajddaravktaBdcddhadCkiacafaqa
  mfBwaemlhdajbdbxaiadagccacafbdbdccliBblacbcaBnacadocadccaeadBmCfhdccawacaeBdBxadfcadacbcbfhlGjBw
  adffbcbBcBjCahdacbfklfosBsacadhdflfvBbBcccaddciyHcBwicbcDvDgljbcbjadazagadffaeilCrjbBrhfafBacjBp
  fddjicfdcBvmcbkmCwglGzBjnlfkaBnncahjBecBhycgcbcCwiadaBnucilfhadaBmddacacglLxubfiqaBlhdcyDhcoBzmB
  JoDxEiagkHpDXjDwmBPhqhyFXseWmKDcBfleclCOrVygBgaldDealfBfgcjBxgqjlaiaweuQpChHpDoDwCyeCfkoClfBbJCb
  hBVrBolNFqfaiadaLgocBcebcnfhPhDKtEeeockglbcbcFVjJrfQvFzEnChJnjBobCjeevdgBfdCkuCpccErvlvlDkiBaFeD
  iaCuadbcbdbfanacaiaCoafbjaiaBdafagacciaNdbLhbVrCcfBxjapaiBRvBgfhKaClFpBujiblddMhBfrBtdlecRvBddlI
  fBfbmdcSliafadaqaHqbkBvCrgcdlddBEeCrCxCkHlfaBcadacbcalafacacfcdcacacaeadacbcacacacacadacbfaiafaf
  acalaseeagasBzdKjBtdDxlqbqaqaBmjGtCdBemBtdkgdnhFxBLxdscocEqdDsfndcondCfhlfBphBfbnddCjNdlpbocleCf
  gqbmfkgFsaDzBNpCLFdBfGDvfIpbINrnLBmoXzDQvUxCFxHIaeGFhBZRTf"

def isUnseen (c : Char) : Bool :=
  c.val < 32 || (c.val ≥ 127 && within unseenRanges c.toNat)

def seenChar (c : Char) : List Char :=
  if isUnseen c then ['\\', 'u', '\x7b'] ++ Nat.toDigits 16 c.toNat ++ ['\x7d'] else [c]

def quotedChar (c : Char) : List Char :=
  match c with
  | '\x00' => ['\\', '0']
  | '\t' => ['\\', 't']
  | '\n' => ['\\', 'n']
  | '\r' => ['\\', 'r']
  | '\"' => ['\\', '\"']
  | '\\' => ['\\', '\\']
  | c => seenChar c

def quoted (text : String) : String :=
  .ofList ('\"' :: text.toList.flatMap quotedChar ++ ['\"'])

def quotedSingle (c : Char) : String :=
  "'" ++ .ofList (quotedChar c) ++ "'"

end Seepage.Text
