/-!
# Kinds of tokens

Three kinds of tokens carry a value of their own: identifiers, comet literals
and strings. Every other kind is fixed: it has one tag, and one spelling that
is written for it.
-/

namespace CometLang

/-- What a token is, apart from its value and its place. -/
inductive Kind where
  | identifier
  | cometLiteral
  | string
  | openParen
  | closeParen
  | openBrace
  | closeBrace
  | comma
  | semicolon
  | equals
  | notEquals
  | greater
  | less
  | greaterEquals
  | lessEquals
  | and
  | or
  | plus
  | minus
  | star
  | slash
  | plusPlus
  | minusMinus
  | assignment
  | comet
  | voyage
  | reception
  | transmission
  | whirl
  | launch
  | orbit
  | navigate
  | propel
deriving DecidableEq, Repr

namespace Kind

/-- Every kind, those with a value first. -/
def all : List Kind :=
  [.identifier, .cometLiteral, .string, .openParen, .closeParen, .openBrace,
   .closeBrace, .comma, .semicolon, .equals, .notEquals, .greater, .less,
   .greaterEquals, .lessEquals, .and, .or, .plus, .minus, .star, .slash, .plusPlus,
   .minusMinus, .assignment, .comet, .voyage, .reception, .transmission, .whirl,
   .launch, .orbit, .navigate, .propel]

/-- The name under which a kind is listed. -/
def name : Kind → String
  | identifier => "Identifier"
  | cometLiteral => "CometLiteral"
  | string => "String"
  | openParen => "OpenParen"
  | closeParen => "CloseParen"
  | openBrace => "OpenBrace"
  | closeBrace => "CloseBrace"
  | comma => "Comma"
  | semicolon => "Semicolon"
  | equals => "Equals"
  | notEquals => "NotEquals"
  | greater => "Greater"
  | less => "Less"
  | greaterEquals => "GreaterEquals"
  | lessEquals => "LessEquals"
  | and => "And"
  | or => "Or"
  | plus => "Plus"
  | minus => "Minus"
  | star => "Star"
  | slash => "Slash"
  | plusPlus => "PlusPlus"
  | minusMinus => "MinusMinus"
  | assignment => "Assignment"
  | comet => "Comet"
  | voyage => "Voyage"
  | reception => "Reception"
  | transmission => "Transmission"
  | whirl => "Whirl"
  | launch => "LaunchWhirl"
  | orbit => "Orbit"
  | navigate => "Navigate"
  | propel => "Propel"

/-- The tag of a fixed kind. -/
def tag? : Kind → Option String
  | identifier | cometLiteral | string => none
  | openParen => some "sep_op_par"
  | closeParen => some "sep_cl_par"
  | openBrace => some "sep_op_brac"
  | closeBrace => some "sep_cl_brac"
  | comma => some "sep_comma"
  | semicolon => some "sep_semicolon"
  | equals => some "comp_eq"
  | notEquals => some "comp_not"
  | greater => some "comp_great"
  | less => some "comp_less"
  | greaterEquals => some "comp_great_eq"
  | lessEquals => some "comp_less_eq"
  | and => some "logic_and"
  | or => some "logic_or"
  | plus => some "arith_plus"
  | minus => some "arith_minus"
  | star => some "arith_mult"
  | slash => some "arith_div"
  | plusPlus => some "arith_incr"
  | minusMinus => some "arith_decr"
  | assignment => some "arith_assign"
  | comet => some "comet_token"
  | voyage => some "voyage_token"
  | reception => some "reception_token"
  | transmission => some "transmission_token"
  | whirl => some "whirl_token"
  | launch => some "launchwhirl_token"
  | orbit => some "orbit_token"
  | navigate => some "navigate_token"
  | propel => some "propel_token"

/-- The spelling that is written for a fixed kind. -/
def lexeme? : Kind → Option String
  | identifier | cometLiteral | string => none
  | openParen => some "("
  | closeParen => some ")"
  | openBrace => some "\x7b"
  | closeBrace => some "\x7d"
  | comma => some ","
  | semicolon => some ";"
  | equals => some "=="
  | notEquals => some "!="
  | greater => some ">"
  | less => some "<"
  | greaterEquals => some ">="
  | lessEquals => some "<="
  | and => some "&&"
  | or => some "||"
  | plus => some "+"
  | minus => some "-"
  | star => some "*"
  | slash => some "/"
  | plusPlus => some "++"
  | minusMinus => some "--"
  | assignment => some "="
  | comet => some "Comet"
  | voyage => some "Voyage"
  | reception => some "Reception"
  | transmission => some "Transmission"
  | whirl => some "Whirl"
  | launch => some "Launch"
  | orbit => some "Orbit"
  | navigate => some "Navigate"
  | propel => some "Propel"

/-- The fixed kind with the given tag. -/
def ofTag? (tag : String) : Option Kind :=
  all.find? fun kind => kind.tag? == some tag

/-- The words that are keywords; two of them may also start in lower case. -/
def reserved : List (String × Kind) :=
  [("Comet", comet), ("Voyage", voyage),
   ("reception", reception), ("Reception", reception),
   ("transmission", transmission), ("Transmission", transmission),
   ("Whirl", whirl), ("Launch", launch), ("Orbit", orbit),
   ("Navigate", navigate), ("Propel", propel)]

/-- The words that are separators or operators. -/
def operators : List (String × Kind) :=
  [("(", openParen), (")", closeParen), ("\x7b", openBrace), ("\x7d", closeBrace),
   (",", comma), (";", semicolon),
   ("==", equals), ("!=", notEquals), (">", greater), ("<", less),
   (">=", greaterEquals), ("<=", lessEquals),
   ("&&", and), ("||", or),
   ("+", plus), ("-", minus), ("*", star), ("/", slash),
   ("++", plusPlus), ("--", minusMinus), ("=", assignment)]

/-- The kind of a keyword. -/
def ofReserved? (word : String) : Option Kind :=
  reserved.lookup word

/-- The kind of a separator or an operator. -/
def ofOperator? (word : String) : Option Kind :=
  operators.lookup word

/-- The keyword that the word would be if it were spelt as one. -/
def misspelt? (word : String) : Option String :=
  (reserved.map Prod.fst).find? fun keyword =>
    keyword.toList.map Char.toLower == word.toList

/-- One of the six comparisons. -/
def isRelational : Kind → Bool
  | equals | notEquals | greater | less | greaterEquals | lessEquals => true
  | _ => false

/-- A connective of a logical chain. -/
def isLogical : Kind → Bool
  | and | or => true
  | _ => false

/-- An operator between terms. -/
def isAdditive : Kind → Bool
  | plus | minus => true
  | _ => false

/-- An operator between factors. -/
def isMultiplicative : Kind → Bool
  | star | slash => true
  | _ => false

/-- One of the four operators of an arithmetic expression. -/
def isArithmetic (kind : Kind) : Bool :=
  kind.isAdditive || kind.isMultiplicative

end Kind
end CometLang
