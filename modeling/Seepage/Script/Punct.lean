set_option autoImplicit false

namespace Seepage.Script

inductive Punct where
  | braceL | braceR | parenL | parenR | bracketL | bracketR
  | dot | dots | semi | comma | question | chain | colon | arrow | at | hash
  | lt | gt | le | ge | eqEq | notEq | eqEqEq | notEqEq
  | plus | minus | star | slash | percent | power | plusPlus | minusMinus
  | shiftL | shiftR | shiftRZero | amp | bar | caret | bang | tilde | ampAmp | barBar | nullish
  | assign | plusAssign | minusAssign | starAssign | slashAssign | percentAssign | powerAssign
  | shiftLAssign | shiftRAssign | shiftRZeroAssign | ampAssign | barAssign | caretAssign
  | ampAmpAssign | barBarAssign | nullishAssign
deriving DecidableEq, Repr, Inhabited

namespace Punct

def text : Punct → String
  | .braceL => "\x7b" | .braceR => "\x7d" | .parenL => "(" | .parenR => ")"
  | .bracketL => "[" | .bracketR => "]"
  | .dot => "." | .dots => "..." | .semi => ";" | .comma => "," | .question => "?"
  | .chain => "?." | .colon => ":" | .arrow => "=>" | .at => "@" | .hash => "#"
  | .lt => "<" | .gt => ">" | .le => "<=" | .ge => ">="
  | .eqEq => "==" | .notEq => "!=" | .eqEqEq => "===" | .notEqEq => "!=="
  | .plus => "+" | .minus => "-" | .star => "*" | .slash => "/" | .percent => "%"
  | .power => "**" | .plusPlus => "++" | .minusMinus => "--"
  | .shiftL => "<<" | .shiftR => ">>" | .shiftRZero => ">>>"
  | .amp => "&" | .bar => "|" | .caret => "^" | .bang => "!" | .tilde => "~"
  | .ampAmp => "&&" | .barBar => "||" | .nullish => "??"
  | .assign => "=" | .plusAssign => "+=" | .minusAssign => "-=" | .starAssign => "*="
  | .slashAssign => "/=" | .percentAssign => "%=" | .powerAssign => "**="
  | .shiftLAssign => "<<=" | .shiftRAssign => ">>=" | .shiftRZeroAssign => ">>>="
  | .ampAssign => "&=" | .barAssign => "|=" | .caretAssign => "^="
  | .ampAmpAssign => "&&=" | .barBarAssign => "||=" | .nullishAssign => "??="

-- Longer punctuators first, so that the first match is the longest.
def byLength : List Punct :=
  [.shiftRZeroAssign,
   .dots, .eqEqEq, .notEqEq, .shiftRZero, .powerAssign, .shiftLAssign, .shiftRAssign,
   .ampAmpAssign, .barBarAssign, .nullishAssign,
   .chain, .arrow, .le, .ge, .eqEq, .notEq, .power, .plusPlus, .minusMinus, .shiftL, .shiftR,
   .ampAmp, .barBar, .nullish, .plusAssign, .minusAssign, .starAssign, .slashAssign,
   .percentAssign, .ampAssign, .barAssign, .caretAssign,
   .braceL, .braceR, .parenL, .parenR, .bracketL, .bracketR, .dot, .semi, .comma, .question,
   .colon, .at, .hash, .lt, .gt, .plus, .minus, .star, .slash, .percent, .amp, .bar, .caret,
   .bang, .tilde, .assign]

def precedence? : Punct → Option Nat
  | .nullish | .barBar => some 1
  | .ampAmp => some 2
  | .bar => some 3
  | .caret => some 4
  | .amp => some 5
  | .eqEq | .notEq | .eqEqEq | .notEqEq => some 6
  | .lt | .gt | .le | .ge => some 7
  | .shiftL | .shiftR | .shiftRZero => some 8
  | .plus | .minus => some 9
  | .star | .slash | .percent => some 10
  | .power => some 11
  | _ => none

def isAssign : Punct → Bool
  | .assign | .plusAssign | .minusAssign | .starAssign | .slashAssign | .percentAssign
  | .powerAssign | .shiftLAssign | .shiftRAssign | .shiftRZeroAssign | .ampAssign | .barAssign
  | .caretAssign | .ampAmpAssign | .barBarAssign | .nullishAssign => true
  | _ => false

end Punct

end Seepage.Script
