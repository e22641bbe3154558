import ReplyLedger.Text.Basic

/-!
# Options and arguments

How the words of a command line are divided into options and arguments. An option is given by a long
name after two hyphens, with its value after an equals sign or in the next word, or by a letter
after one hyphen; letters may be written together, and the value of the last of them may follow at
once. After a word `--` everything is an argument.

`read` reads all words of a command; `readLeading` stops at the first argument, as a group of
commands does. Both give the options in the order in which they stand.
-/

namespace ReplyLedger.CommandLine

/-- An option that a command takes. -/
structure OptionSpec where
  name : Text
  letter : Option Char := none
  takesValue : Bool := false
  deriving DecidableEq, Repr

/-- An option as it was given, by its name. -/
structure Given where
  name : Text
  value : Text := []
  deriving DecidableEq, Repr

/-- The option that every command takes besides its own. -/
def helpOption : OptionSpec := ⟨"help", some 'h', false⟩

/-- What a word that begins with a hyphen gives: options, and whether the last of them needs the
next word for its value; nothing, if it is not understood. -/
def readLetters? (specs : List OptionSpec) : Text → Option (List Given × Option OptionSpec)
  | [] => some ([], none)
  | c :: t => do
    let spec ← specs.find? fun s => s.letter = some c
    if spec.takesValue then
      if t.isEmpty then return ([], some spec) else return ([⟨spec.name, t⟩], none)
    else
      let (given, unfinished) ← readLetters? specs t
      return (⟨spec.name, []⟩ :: given, unfinished)

/-- What a word with two hyphens in front, which are left out here, gives. -/
def readLong? (specs : List OptionSpec) (t : Text) : Option (List Given × Option OptionSpec) := do
  let (name, value) : Text × Option Text :=
    match Text.cut ['='] t with
    | some (name, value) => (name, some value)
    | none => (t, none)
  let spec ← specs.find? fun s => s.name == name
  match spec.takesValue, value with
  | true, some value => return ([⟨spec.name, value⟩], none)
  | true, none => return ([], some spec)
  | false, some _ => none
  | false, none => return ([⟨spec.name, []⟩], none)

/-- What an option word gives; other words are no option words. -/
def readOption? (specs : List OptionSpec) (word : Text) :
    Option (Option (List Given × Option OptionSpec)) :=
  match word with
  | '-' :: '-' :: t => some (readLong? specs t)
  | '-' :: c :: t => some (readLetters? specs (c :: t))
  | _ => none

/-- The options of a command line, and its arguments. With `leading`, the first argument ends the
options. -/
def readWith (leading : Bool) (specs : List OptionSpec) :
    List Text → Option (List Given × List Text)
  | [] => some ([], [])
  | word :: rest =>
    if word = ['-', '-'] then some ([], rest)
    else
      match readOption? specs word with
      | none =>
        if leading then some ([], word :: rest)
        else do
          let (given, arguments) ← readWith leading specs rest
          return (given, word :: arguments)
      | some none => none
      | some (some (given, none)) => do
        let (more, arguments) ← readWith leading specs rest
        return (given ++ more, arguments)
      | some (some (given, some spec)) =>
        match rest with
        | [] => none
        | value :: rest => do
          let (more, arguments) ← readWith leading specs rest
          return (given ++ ⟨spec.name, value⟩ :: more, arguments)

/-- The options and arguments of a command. -/
def read (specs : List OptionSpec) : List Text → Option (List Given × List Text) :=
  readWith false (helpOption :: specs)

/-- The options of a group of commands, and the words from the command's name on. -/
def readLeading (specs : List OptionSpec) : List Text → Option (List Given × List Text) :=
  readWith true (helpOption :: specs)

/-- The value of an option; of several the last one counts. -/
def valueOf? (name : Text) (given : List Given) : Option Text :=
  ((given.filter fun g => g.name == name).getLast?).map Given.value

/-- Whether an option is given. -/
def isGiven (name : Text) (given : List Given) : Bool := given.any fun g => g.name == name

end ReplyLedger.CommandLine
