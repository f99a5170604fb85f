/-
  Tea/Tui/Commands.lean
  =====================
  **Command lines of the terminal host**: the words of an input line and the table of
  commands (`commands.rs`).
-/

namespace Tea.Tui

/-! ### Words -/

/-- `char::is_whitespace`: the Unicode property `White_Space`. -/
def isWhitespace (c : Char) : Bool :=
  let n := c.toNat
  (9 ≤ n && n ≤ 13) || n = 0x20 || n = 0x85 || n = 0xa0 || n = 0x1680 ||
    (0x2000 ≤ n && n ≤ 0x200a) || n = 0x2028 || n = 0x2029 || n = 0x202f || n = 0x205f ||
    n = 0x3000

/-- `str::trim`. -/
def trim (text : String) : String :=
  String.ofList ((text.toList.dropWhile isWhitespace).reverse.dropWhile isWhitespace).reverse

/-- The pieces of `split_whitespace`; `word` holds the letters of the word being read. -/
def wordsFrom (word : List Char) : List Char → List String
  | [] => if word = [] then [] else [String.ofList word]
  | c :: rest =>
      if isWhitespace c then
        if word = [] then wordsFrom [] rest else String.ofList word :: wordsFrom [] rest
      else wordsFrom (word ++ [c]) rest

def splitWhitespace (text : String) : List String := wordsFrom [] text.toList

/-- `strip_prefix(..).unwrap_or_default()`. -/
def stripPrefix (start text : String) : String :=
  if start.toList.isPrefixOf text.toList then
    String.ofList (text.toList.drop start.toList.length)
  else ""

/-! ### Commands -/

/-- A direct command exposed by the terminal host; its help text is for the help
    surface only. -/
structure CommandSpec where
  name : String
  allowedWhileActive : Bool

def COMMANDS : List CommandSpec :=
  [⟨"/help", true⟩, ⟨"/model", false⟩, ⟨"/cost", true⟩, ⟨"/compact", false⟩,
   ⟨"/reload-extensions", false⟩, ⟨"/session", false⟩, ⟨"/resume", false⟩, ⟨"/new", false⟩,
   ⟨"/clear", false⟩, ⟨"/steer", true⟩, ⟨"/followup", true⟩, ⟨"/quit", true⟩]

def find (name : String) : Option CommandSpec := COMMANDS.find? fun command => command.name = name

/-- A line that is dispatched as a command, not submitted as a prompt. -/
def isCommand (input : String) : Bool := input.toList.head? = some '/'

/-- `input.trim().is_empty()`. -/
def isBlank (input : String) : Bool := (trim input).isEmpty

end Tea.Tui
