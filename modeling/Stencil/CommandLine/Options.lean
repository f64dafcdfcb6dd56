/-! The arguments of the command: one template at most, and options in their long or their
short form. Behind two hyphens everything is a template. -/

namespace Stencil.CommandLine

structure Options where
  /-- A template name or the path of a template file; without it the template is the input. -/
  template : Option String := none
  folder : Option String := none
  data : Option String := none
  config : Option String := none
  dependencies : Bool := false
  check : Bool := false
deriving DecidableEq, Repr

/-- Why the arguments ask for nothing to be run. -/
inductive Usage where
  | help
  | unexpected (argument : String)
  | missingValue (option : String)
  | repeated (option : String)
deriving DecidableEq, Repr

def Usage.text : String :=
  "Render directive-annotated text templates\n\n"
    ++ "Usage: stencil [OPTIONS] [TEMPLATE]\n\n"
    ++ "Arguments:\n"
    ++ "  [TEMPLATE]  Template name or file (reads from stdin if not provided)\n\n"
    ++ "Options:\n"
    ++ "  -d, --dir <DIR>        Template directory; names map to paths\n"
    ++ "  -D, --data <DATA>      JSON file with render data\n"
    ++ "  -c, --config <CONFIG>  Engine configuration file (TOML format)\n"
    ++ "      --deps             Print the components the template depends on instead of rendering\n"
    ++ "      --check            Report template syntax problems instead of rendering\n"
    ++ "  -h, --help             Print help\n"

def Usage.message : Usage → String
  | .help => text
  | .unexpected argument => "error: unexpected argument '" ++ argument ++ "' found\n\n" ++ text
  | .missingValue option => "error: a value is required for '" ++ option ++ "' but none was supplied\n\n" ++ text
  | .repeated option => "error: the argument '" ++ option ++ "' cannot be used multiple times\n\n" ++ text

inductive Switch where
  | folder | data | config | dependencies | check | help
deriving DecidableEq, Repr

namespace Switch

def long : Switch → String
  | .folder => "--dir"
  | .data => "--data"
  | .config => "--config"
  | .dependencies => "--deps"
  | .check => "--check"
  | .help => "--help"

def ofLong? (option : String) : Option Switch :=
  [folder, data, config, dependencies, check, help].find? fun switch => switch.long = option

def ofShort? : Char → Option Switch
  | 'd' => some .folder
  | 'D' => some .data
  | 'c' => some .config
  | 'h' => some .help
  | _ => none

def takesValue : Switch → Bool
  | .folder | .data | .config => true
  | .dependencies | .check | .help => false

end Switch

/-- What one argument is. -/
inductive Argument where
  | template
  /-- An option, with the value written in the same argument. -/
  | switch (switch : Switch) (value : Option String)
  | unknown

/-- A lone hyphen is a file name like any other. -/
def isOption (argument : String) : Bool := 1 < argument.length && argument.toList.head? = some '-'

/-- Cuts a long option at its first equals sign. -/
def long (argument : List Char) : Argument :=
  let name := argument.takeWhile fun c => c ≠ '='
  let value := match argument.drop name.length with
    | [] => none
    | _ :: value => some (String.ofList value)
  match Switch.ofLong? (String.ofList name) with
  | none => .unknown
  | some switch => if value.isSome && !switch.takesValue then .unknown else .switch switch value

/-- A short option has its value right behind it; an equals sign may stand between them. -/
def short (letter : Char) (rest : List Char) : Argument :=
  match Switch.ofShort? letter, rest with
  | none, _ => .unknown
  | some .help, _ => .switch .help none
  | some switch, [] => .switch switch none
  | some switch, '=' :: value => .switch switch (some (String.ofList value))
  | some switch, value => .switch switch (some (String.ofList value))

def classify (argument : String) : Argument :=
  match argument.toList with
  | '-' :: '-' :: rest => long ('-' :: '-' :: rest)
  | '-' :: letter :: rest => short letter rest
  | _ => .template

namespace Options

def setTemplate (options : Options) (argument : String) : Except Usage Options :=
  match options.template with
  | none => .ok { options with template := some argument }
  | some _ => .error (.unexpected argument)

/-- Each option may be given once, and a path must not be empty. -/
def set (options : Options) (switch : Switch) (value : String) : Except Usage Options :=
  if switch.takesValue && value.isEmpty then .error (.missingValue switch.long)
  else match switch with
    | .folder => if options.folder.isSome then again else .ok { options with folder := some value }
    | .data => if options.data.isSome then again else .ok { options with data := some value }
    | .config => if options.config.isSome then again else .ok { options with config := some value }
    | .dependencies => if options.dependencies then again else .ok { options with dependencies := true }
    | .check => if options.check then again else .ok { options with check := true }
    | .help => .error .help
where
  again : Except Usage Options := .error (.repeated switch.long)

def readFrom : Options → List String → Except Usage Options
  | options, [] => .ok options
  | options, "--" :: rest => rest.foldlM setTemplate options
  | options, argument :: rest =>
    match classify argument with
    | .template => do readFrom (← options.setTemplate argument) rest
    | .unknown => .error (.unexpected argument)
    | .switch switch (some value) => do readFrom (← options.set switch value) rest
    | .switch switch none =>
      if !switch.takesValue then do readFrom (← options.set switch "") rest
      else match rest with
        | [] => .error (.missingValue switch.long)
        | value :: rest =>
          if isOption value then .error (.missingValue switch.long)
          else do readFrom (← options.set switch value) rest

def read (arguments : List String) : Except Usage Options := readFrom {} arguments

end Options
end Stencil.CommandLine
