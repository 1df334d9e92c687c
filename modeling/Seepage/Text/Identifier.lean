import Seepage.Text.Ranges

set_option autoImplicit false

namespace Seepage.Text

def identifierStarts : List (Nat × Nat) := readRanges
  "GoalafagwcBecRpflpeiacaFaecbddcahacccactcDecFijGjcBldahBoCuBafdBuBqBkbcDucaqbiblcdaracBdBeDkmazB
  gkbfagvfakaeayyikgxcgrBpChCbeataijqpfhdbdvcgcaedearaobccpblajffbdvcgcbcbcbBgdcaucricccvcgcbceeat
  aqbyamhdbdvcgcbceeaBfbccqasacfeccdebcacbebecelxaCbhcccwcpeaBbccbdbBfafhcccwcjceeaBfccbqbsicccBod
  aragcjczfgrexcicadgChBvcbngChbcacecxcacjcbkadecawdBhaCmhcBjBceEmBqvarffdeaebicfmnasBlcagadBqcMuc
  ddgcacddBocddBgcddgcacddocCecddCoBmprDhdfeXvdqczgCwekirosprpmccqBzBkafaCqDkiBocagCrlBeByBddemBrf
  zCdwkCaDfaDqBushCdBdoblBrBbBjBqclBjdkgBqdcBqdcfcbeagHjCnKrdfdBldfdhcacacacBedCacgcaeccgeddffmgcc
  gEnaoarmDyafadjcadfhacacacpddgefasBoDZcIuhdebnBlcagadCdiarwkgcgcgcgcgcgcgcgVfcBaiiedefDhfecDlcdg
  BqcDpsBfBxpTtJTnCnBGUeCqBtdKieplbvBurBedDbBoidDydDdvqcccdcwBeBzpBxClfeacbmBblwBaBciBuBdarecjlecB
  oycchvweaeBxcaebdedacazcdkicnfdfdfkgcgcBqcnhEkBeQNrnwfBwMNdObdEbBngnegacjcmcecacbcbcEdBiNytCldCb
  BplEnecFeBlzhzmDkefdfdfdcBklczcscbcodnBjEsCsCaKiBceBwBwBfoBdgBllBddBjfhceBrGbtBjfBjfBnjBznkcocgc
  bckcocgcbeBznLykvlhzfcBpciCsfdacBrcbeadwlwkBeCoscblvlzhzBnCdhbCnaqdcccBcBrBceBcBkhcBbBcCblvlsorE
  hCuCeByoByoBjBnBbkwJrBphbrfCfBclajvBrrBvuBcwnCaCgbdaoBsBhyBbBjBeadajBieanBvpdwacaBkrcyubCmgcacdc
  ocjiBuBnhdbdvcgcbceeataneBfjcadacBlcaBaacaBtCatdvcBfBvvbcaHdBuBqdBlBvvaCiBqoaCuBaBmgHeBrEnClBghd
  adhcbcxqacaDrhdBmracaBdalBniawamBtuatCuHsBgBgicBksaByBdEjgcbcBlwaBafcbcBfpayBrKbsqacmcBhEvaDcBJl
  DzEgsHnDXlDsqBPfsfBaFXqgWkKDeBdCPvVwiBesDasBdtBvrdBgugsQrBsIeClBhydyBtCwgaCpmCnbcapekKXxBqBfDuEk
  MWsdcgcbcLeqaBecdapdjPfDKvEcgmeiijIWlDgcCscbdadbddclcacgcCmcddhcgcBbcdcecaegcNbdycycBecycBecycBe
  cycBecychCSzBehfKcCjFrBslgraMkBdtBrSrBbIvBddaIaBecccbcgdekbIrgcdcbcocHoCiCpiaBUjdcBacbcadacjcdca
  cahafacacacccbcadacacacacacbcaddcgcdcdcacjcqgccecqGObCLFbBhGMndIObdLBkqXxDQxUvCFzHHygMOn"

def identifierMarks : List (Nat × Nat) := readRanges
  "HbaWnEhyaJseKgBscacbcbcaCvkBxBehaDygdfdbcddjyaBfBaDokqjBiikazdciccceBscCiiBrxcBgCdccrcglbdjscCfa
  cgdbdckalbdjpadcCfacefbdceavleamcCfachccccvbdjlfccCfacgdbdciclbdjtaCieeccdkapjreCeacgcccdibmbdjs
  cCfacgcccdibmbdjeandCebcgcccdkalbdjscCtaffcachhjdbCkadgnhcjDkadimgcjClbhjmacacafbBytcbgkcBjkaDxt
  cjndfcccdgedolcoBBcckiBJtdBdcBebBfbCnBfkadjBicckFoaEplflljEzkCjeCgjcBcdkhjxncBedlveBwqmjsincBfmd
  jBtnBxtjjhjEpccufahadcHrClUfbBybuaEumfaelEOdcFmaDtBfVjfEcbDtaBSJljCsafjBhbDdbKnaeafayefaDgbBzrlj
  hrokBdhBamBtdBwnqjmaljBwnnajbdjBicBzaccdbgbcaBqegbJdhcbdjBDZhaBCkprpebzcHljBmaBmaZoaItaFueLijCAq
  ccbgdBpcfaGkbWcdjjhjBgeMgbDafCtkBydEtcCcoBgkdbldBukiaBujhcBlncjgbBtancBxnjdclDflhadaGclgjhdCebcg
  dbdckalbdgeeCqicadacdcecapbDfrkjfaDetnjIggdiBcbDfqqjDemjjhtCgofjJjoGkjCtfcbddcacbnjEqgdgeaBdjBpg
  cdjakkBvpHrhFhjCchchrjCfvcnEtfeacbcgcajjBxecbcejjCdjKgdkbcaBxgeeokHXuahoQYzBbDMdjDjjBneCigBajUpj
  ScacCcidDeambBDAybGEsjTzBtdwUxeefjhdgBfdFtcCCoBxTtCcfBxjapaxecoCAjgcqdgcbceDxaGfgkjNtaCknTfnJlbc
  jIzadaibgaShgEgggjHBbjBSVGxJf"

def isIdentifierStart (c : Char) : Bool :=
  if c.val < 128 then c.isAlpha || c == '$' || c == '_'
  else within identifierStarts c.toNat

def isIdentifierPart (c : Char) : Bool :=
  if c.val < 128 then c.isAlphanum || c == '$' || c == '_'
  else within identifierStarts c.toNat || within identifierMarks c.toNat ||
    c == '\u200c' || c == '\u200d'

end Seepage.Text
