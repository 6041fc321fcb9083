import ScriptVM.Session

/-!
The command line: files run in order on one session, then a dialogue if one is asked for or there
are no files.

Everything here is a function of the arguments, the contents of the files and the lines of input;
what is to be written comes out as data.
-/
namespace ScriptVM

namespace Text

/-- Whether a character is white space by the Unicode property of that name. -/
def isBlank (c : Char) : Bool :=
  [(0x09, 0x0d), (0x20, 0x20), (0x85, 0x85), (0xa0, 0xa0), (0x1680, 0x1680), (0x2000, 0x200a),
   (0x2028, 0x2029), (0x202f, 0x202f), (0x205f, 0x205f), (0x3000, 0x3000)].any
    fun (low, high) => low ≤ c.toNat && c.toNat ≤ high

/-- The text without the blanks at either end. -/
def trim (text : String) : String :=
  let tail := text.toList.dropWhile isBlank
  String.ofList (tail.reverse.dropWhile isBlank).reverse

/-- The lines of a text. A newline ends a line, so nothing after the last one is no line. -/
def linesFrom (current : List Char) : List Char → List String
  | [] => if current.isEmpty then [] else [String.ofList current.reverse]
  | c :: rest =>
    if c = '\n' then String.ofList current.reverse :: linesFrom [] rest
    else linesFrom (c :: current) rest

/-- The lines of a text, without the newlines. -/
def lines (text : String) : List String :=
  linesFrom [] text.toList

end Text

namespace Shell

/-- What the arguments ask for. -/
structure Options where
  files : List String := []
  repl : Bool := false
  dumpBytecode : Bool := false
  trace : Bool := false
  typeCheck : Bool := false
  buffered : Bool := false
  heapCells : Nat := 16
deriving DecidableEq, Repr

/-- A number of cells. -/
def cellCount? (text : String) : Option Nat :=
  match text.toList with
  | '+' :: digits => Decimal.ofDigits? 10 digits
  | digits => Decimal.ofDigits? 10 digits

/-- What arguments ask for, on top of what earlier ones did. After two dashes all are files. -/
def Options.parse (options : Options) : List String → Option Options
  | [] => some options
  | "--" :: files => some { options with files := options.files ++ files }
  | "--heap-cells" :: count :: rest =>
    (cellCount? count).bind fun heapCells => Options.parse { options with heapCells } rest
  | argument :: rest =>
    if argument = "--repl" then Options.parse { options with repl := true } rest
    else if argument = "--dump-bytecode" then
      Options.parse { options with dumpBytecode := true } rest
    else if argument = "--trace" then Options.parse { options with trace := true } rest
    else if argument = "--type-check" then Options.parse { options with typeCheck := true } rest
    else if argument = "--buffered" then Options.parse { options with buffered := true } rest
    else
      match argument.toList with
      | '-' :: _ :: _ =>
        if "--heap-cells=".toList.isPrefixOf argument.toList then
          (cellCount? (String.ofList (argument.toList.drop 13))).bind fun heapCells =>
            Options.parse { options with heapCells } rest
        else none
      | _ => Options.parse { options with files := options.files ++ [argument] } rest

/-- Text for one of the two output channels. -/
inductive Emission where
  | out (text : String)
  | err (text : String)
deriving DecidableEq, Repr

/-- What comes of one file or one line: text to write, the session after it, and whether to go on.
-/
structure Turn where
  emissions : List Emission
  session : Session
  goOn : Bool
deriving DecidableEq, Repr

/-- The session that the options ask for. -/
def Options.session (options : Options) : Session :=
  .new options.heapCells options.typeCheck

/-- Printed lines. -/
def emitLines (lines : List String) : List Emission :=
  lines.map fun line => .out (line ++ "\n")

/-- A value as an answer. -/
def answer (value : Value) : Emission :=
  .out ("=> " ++ value.render ++ "\n")

/-- Shows the program of a file. -/
def dumpFile (session : Session) (name content : String) : Turn :=
  match session.compile content with
  | (.ok program, session) =>
    ⟨[.out ("== " ++ name ++ " ==\n"), .out program.listing,
      .out ("result: " ++ renderReg program.result ++ "\n")], session, true⟩
  | (.error e, session) =>
    ⟨[.err ("Error compiling " ++ name ++ ": " ++ e.message ++ "\n")], session, false⟩

/-- Runs a file. -/
def executeFile (fuel : Nat) (session : Session) (name content : String) : Option Turn :=
  (session.evaluate fuel content).map fun (outcome, session) =>
    let (lines, session) := session.collectOutput
    match outcome with
    | .ok value => ⟨emitLines lines ++ [answer value], session, true⟩
    | .error e =>
      ⟨emitLines lines ++ [.err ("Error executing " ++ name ++ ": " ++ e.message ++ "\n")],
        session, false⟩

/-- Shows or runs a file, if it could be read. -/
def runFile (fuel : Nat) (options : Options) (session : Session) (name : String)
    (content : Option String) : Option Turn :=
  match content with
  | none =>
    some ⟨[.err ("Error reading file '" ++ name ++ "': No such file or directory (os error 2)\n")],
      session, false⟩
  | some content =>
    if options.dumpBytecode then some (dumpFile session name content)
    else executeFile fuel session name content

/-- What a dialogue starts with. -/
def banner : List Emission :=
  [.out "mara REPL\n", .out "Type 'exit' to quit.\n"]

/-- What stands before each line of input. -/
def prompt : Emission := .out "> "

/-- Evaluates a line of input. -/
def runLine (fuel : Nat) (session : Session) (line : String) : Option Turn :=
  let input := Text.trim line
  if input = "exit" then some ⟨[], session, false⟩
  else if input = "" then some ⟨[], session, true⟩
  else
    (session.evaluate fuel input).map fun (outcome, session) =>
      let (lines, session) := session.collectOutput
      match outcome with
      | .ok value => ⟨emitLines lines ++ [answer value], session, true⟩
      | .error e => ⟨emitLines lines ++ [.err ("Error: " ++ e.message ++ "\n")], session, true⟩

/-- Whether a dialogue follows the files. -/
def Options.wantsDialogue (options : Options) : Bool :=
  !options.dumpBytecode && (options.repl || options.files.isEmpty)

/-- All files in order, up to the first that fails. -/
def runFiles (fuel : Nat) (options : Options) (read : String → Option String) (session : Session) :
    List String → Option Turn
  | [] => some ⟨[], session, true⟩
  | name :: rest => do
    let turn ← runFile fuel options session name (read name)
    if turn.goOn then
      let others ← runFiles fuel options read turn.session rest
      return { others with emissions := turn.emissions ++ others.emissions }
    else return turn

/-- A dialogue: each line after a prompt, up to the end of input or the word that ends it. -/
def dialogue (fuel : Nat) (session : Session) : List String → Option (List Emission)
  | [] => some [prompt]
  | line :: rest => do
    let turn ← runLine fuel session line
    if turn.goOn then
      let others ← dialogue fuel turn.session rest
      return prompt :: turn.emissions ++ others
    else return prompt :: turn.emissions

/-- Everything written, and the exit status. -/
structure Transcript where
  emissions : List Emission
  status : Nat
deriving DecidableEq, Repr

/-- A whole invocation, if every program ends within `fuel` steps. -/
def run (fuel : Nat) (options : Options) (read : String → Option String) (input : String) :
    Option Transcript := do
  let files ← runFiles fuel options read options.session options.files
  if !files.goOn then return ⟨files.emissions, 1⟩
  else if options.wantsDialogue then
    let emissions ← dialogue fuel files.session (Text.lines input)
    return ⟨files.emissions ++ banner ++ emissions, 0⟩
  else return ⟨files.emissions, 0⟩

/-- The text of one channel. -/
def Transcript.stdout (transcript : Transcript) : String :=
  String.join (transcript.emissions.filterMap fun emission =>
    match emission with
    | .out text => some text
    | .err _ => none)

/-- The text of the other channel. -/
def Transcript.stderr (transcript : Transcript) : String :=
  String.join (transcript.emissions.filterMap fun emission =>
    match emission with
    | .out _ => none
    | .err text => some text)

end Shell

end ScriptVM
