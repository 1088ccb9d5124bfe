import PacketWatch.Address.Endpoint

namespace PacketWatch

inductive Command where
  | connect (peer : Endpoint)
  | listen (address : Endpoint)
deriving DecidableEq

structure Request where
  config : Option String := none
  maxMessages : Option Nat := none
  command : Command
deriving DecidableEq

inductive Refusal where
  | helpAsked
  | versionAsked
  /-- Nothing was given at all. -/
  | nothingAsked
  | missingCommand
  | missingAddress
  | unknownArgument
  | unknownCommand
  /-- An option without the value it needs, or with an empty one. -/
  | noValue
  | badValue
  | valueOfFlag
  | repeatedOption
deriving DecidableEq, Repr

def Refusal.exitCode : Refusal → Nat
  | helpAsked | versionAsked => 0
  | _ => 2

namespace CommandLine

inductive Word where
  /-- Two dashes alone: what follows is no option. -/
  | escape
  | long (name : String) (value : Option String)
  | short (letters : List Char)
  | bare (text : String)

def Word.of (text : String) : Word :=
  match text.toList with
  | ['-', '-'] => .escape
  | '-' :: '-' :: rest =>
    let value := match rest.dropWhile (· ≠ '=') with
      | _ :: value => some (String.ofList value)
      | [] => none
    .long (.ofList (rest.takeWhile (· ≠ '='))) value
  | ['-'] => .bare text
  | '-' :: letters => .short letters
  | _ => .bare text

inductive Verb where
  | connect
  | listen
  | help
deriving DecidableEq

def Verb.ofName? : String → Option Verb
  | "connect" => some .connect
  | "listen" => some .listen
  | "help" => some .help
  | _ => none

/-! Behind the command stands at most one address. -/

def address? : Option String → Except Refusal (Option Endpoint)
  | none => .ok none
  | some text =>
    match Endpoint.ofText? text with
    | some endpoint => .ok (some endpoint)
    | none => .error .badValue

/-- Reads the address, if there is one, from the arguments behind the command. Help is given only
if the address in front of the flag is a good one. -/
def operand (given : Option String) (escaped : Bool) :
    List String → Except Refusal (Option Endpoint)
  | [] => address? given
  | arg :: rest =>
    let take (text : String) :=
      match given with
      | none => operand (some text) escaped rest
      | some _ => .error .unknownArgument
    let help := do
      let _ ← address? given
      throw .helpAsked
    if escaped then take arg
    else
      match Word.of arg with
      | .escape => operand given true rest
      | .bare text => take text
      | .long "help" none => help
      | .long "help" (some _) => .error .valueOfFlag
      | .short ('h' :: _) => help
      | _ => .error .unknownArgument

def command (verb : Verb) (args : List String) : Except Refusal Command := do
  match verb with
  | .connect =>
    match ← operand none false args with
    | some peer => return .connect peer
    | none => throw .missingAddress
  | .listen =>
    return .listen ((← operand none false args).getD (.v4 (.ofDigits [127, 0, 0, 1]) 7600))
  | .help =>
    match args with
    | [] => throw .helpAsked
    | [name] => throw (if (Verb.ofName? name).isSome then .helpAsked else .unknownCommand)
    | _ => throw .unknownCommand

inductive Switch where
  | config
  | maxMessages
  | help
  | version
deriving DecidableEq

namespace Switch

def ofName? : String → Option Switch
  | "config" => some config
  | "max-messages" => some maxMessages
  | "help" => some help
  | "version" => some version
  | _ => none

def ofLetter? : Char → Option Switch
  | 'c' => some config
  | 'n' => some maxMessages
  | 'h' => some help
  | 'V' => some version
  | _ => none

end Switch

/-- The options read so far. The value of the last one is looked at only when the next argument
is an option or when no more arguments follow. -/
structure Draft where
  config : Option String := none
  maxMessages : Option Nat := none
  pending : Option (Switch × Option String) := none

namespace Draft

def isGiven (d : Draft) : Switch → Bool
  | .config => d.config.isSome
  | .maxMessages => d.maxMessages.isSome
  | _ => false

def store (d : Draft) (switch : Switch) (value : Option String) : Except Refusal Draft :=
  match switch, value with
  | .help, _ => .error .helpAsked
  | .version, _ => .error .versionAsked
  | _, none => .error .noValue
  | switch, some text =>
    if d.isGiven switch then .error .repeatedOption
    else if switch = .config then
      if text.isEmpty then .error .noValue else .ok { d with config := some text }
    else
      match Text.size? text.toList with
      | some n => .ok { d with maxMessages := some n }
      | none => .error .badValue

def resolve (d : Draft) : Except Refusal Draft :=
  match d.pending with
  | none => .ok d
  | some (switch, value) => store { d with pending := none } switch value

def meet (d : Draft) (switch : Switch) (value : Option String) : Except Refusal Draft := do
  let d ← d.resolve
  match switch, value with
  | .config, none | .maxMessages, none => return { d with pending := some (switch, none) }
  | _, _ => d.store switch value

/-- Meets options written as letters. The first that takes a value has the letters behind it as
its value; a sign of equality may stand between. -/
def meetLetters (d : Draft) : List Char → Except Refusal Draft
  | [] => .ok d
  | c :: rest =>
    match Switch.ofLetter? c with
    | none => .error .unknownArgument
    | some switch =>
      if switch = .help || switch = .version then
        (d.meet switch none).bind fun d => d.meetLetters rest
      else
        match rest with
        | [] => d.meet switch none
        | '=' :: value => d.meet switch (some (.ofList value))
        | value => d.meet switch (some (.ofList value))

def meetName (d : Draft) (name : String) (value : Option String) : Except Refusal Draft :=
  match Switch.ofName? name with
  | none => .error .unknownArgument
  | some switch =>
    if (switch = .help || switch = .version) && value.isSome then .error .valueOfFlag
    else d.meet switch value

def awaits (d : Draft) : Option Switch :=
  match d.pending with
  | some (switch, none) => some switch
  | _ => none

/-- The request, once all arguments are read. A file named in the environment counts if none is
named among the arguments. -/
def finish (d : Draft) (environment : Option String) (command : Option Command) :
    Except Refusal Request := do
  let d ← d.resolve
  let d ← if d.config.isNone && environment.isSome then d.store .config environment else .ok d
  match command with
  | some command => return { config := d.config, maxMessages := d.maxMessages, command }
  | none =>
    throw (if d.config.isNone && d.maxMessages.isNone then .nothingAsked else .missingCommand)

end Draft

/-- Reads the arguments from the first option on. What is wrong behind the command is told before
what is wrong with the last option in front of it. -/
def options (environment : Option String) (d : Draft) : List String → Except Refusal Request
  | [] => d.finish environment none
  | arg :: rest => do
    match Word.of arg with
    | .escape =>
      match rest with
      | [] => d.finish environment none
      | arg :: _ =>
        throw (if (Verb.ofName? arg).isSome then .unknownArgument else .unknownCommand)
    | .long name value => options environment (← d.meetName name value) rest
    | .short letters => options environment (← d.meetLetters letters) rest
    | .bare text =>
      match d.awaits with
      | some switch => options environment { d with pending := some (switch, some text) } rest
      | none =>
        match Verb.ofName? text with
        | some verb =>
          let command ← command verb rest
          d.finish environment (some command)
        | none => throw .unknownCommand

def request (args : List String) (environment : Option String) : Except Refusal Request :=
  options environment {} args

end CommandLine

end PacketWatch
