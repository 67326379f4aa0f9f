import SchemaMigration.Path.Basic

set_option autoImplicit false

namespace SchemaMigration.Command

inductive Format where
  | human
  | json
deriving DecidableEq, Repr

structure Options where
  config : Option Path := none
  root : Option Path := none
  dryRun : Bool := false
  output : Option Format := none
  verbose : Bool := false
  version : Bool := false

inductive Switch where
  | dryRun
  | verbose
  | version
  | help

inductive Setting where
  | config
  | root
  | output

def longName? : String → Option (Switch ⊕ Setting)
  | "dry-run" => some (.inl .dryRun)
  | "verbose" => some (.inl .verbose)
  | "version" => some (.inl .version)
  | "help" => some (.inl .help)
  | "config" => some (.inr .config)
  | "root" => some (.inr .root)
  | "output" => some (.inr .output)
  | _ => none

def shortName? : Char → Option (Switch ⊕ Setting)
  | 'v' => some (.inl .verbose)
  | 'V' => some (.inl .version)
  | 'h' => some (.inl .help)
  | 'c' => some (.inr .config)
  | _ => none

inductive Invocation where
  | run (options : Options)
  | help
  | invalid

inductive Reading where
  | going (options : Options)
  | stopped (invocation : Invocation)

def flip (options : Options) : Switch → Reading
  | .dryRun => if options.dryRun then .stopped .invalid else .going { options with dryRun := true }
  | .verbose =>
    if options.verbose then .stopped .invalid else .going { options with verbose := true }
  | .version =>
    if options.version then .stopped .invalid else .going { options with version := true }
  | .help => .stopped .help

def format? : String → Option Format
  | "human" => some .human
  | "json" => some .json
  | _ => none

def assign (options : Options) (setting : Setting) (value : String) : Reading :=
  match setting with
  | .config =>
    if options.config.isSome || value.isEmpty then .stopped .invalid
    else .going { options with config := some ⟨value⟩ }
  | .root =>
    if options.root.isSome || value.isEmpty then .stopped .invalid
    else .going { options with root := some ⟨value⟩ }
  | .output =>
    match format? value with
    | some format =>
      if options.output.isSome then .stopped .invalid
      else .going { options with output := some format }
    | none => .stopped .invalid

inductive Step where
  | done (reading : Reading)
  | waiting (options : Options) (setting : Setting)

def readLetters (options : Options) : List Char → Step
  | [] => .done (.going options)
  | letter :: rest =>
    match shortName? letter with
    | none => .done (.stopped .invalid)
    | some (.inl switch) =>
      match flip options switch with
      | .going options => readLetters options rest
      | stopped => .done stopped
    | some (.inr setting) =>
      match rest with
      | [] => .waiting options setting
      | '=' :: value => .done (assign options setting (String.ofList value))
      | value => .done (assign options setting (String.ofList value))

def readName (options : Options) (text : List Char) : Step :=
  let (name, attached) := text.span (· != '=')
  match longName? (String.ofList name), attached with
  | none, _ => .done (.stopped .invalid)
  | some (.inl switch), [] => .done (flip options switch)
  | some (.inl _), _ :: _ => .done (.stopped .invalid)
  | some (.inr setting), [] => .waiting options setting
  | some (.inr setting), _ :: value => .done (assign options setting (String.ofList value))

def readArgument (options : Options) (argument : List Char) : Step :=
  match argument with
  | '-' :: '-' :: name => readName options name
  | '-' :: letter :: rest => readLetters options (letter :: rest)
  | _ => .done (.stopped .invalid)

def isValue (argument : List Char) : Bool :=
  argument.head? != some '-' || argument == ['-']

def readAll : Options → Option Setting → List String → Invocation
  | options, none, [] => .run options
  | _, some _, [] => .invalid
  | options, some setting, argument :: rest =>
    if isValue argument.toList then
      match assign options setting argument with
      | .going options => readAll options none rest
      | .stopped invocation => invocation
    else .invalid
  | options, none, argument :: rest =>
    -- Two dashes alone end the options, and nothing may follow them.
    if argument == "--" then if rest.isEmpty then .run options else .invalid
    else
      match readArgument options argument.toList with
      | .done (.going options) => readAll options none rest
      | .done (.stopped invocation) => invocation
      | .waiting options setting => readAll options (some setting) rest

def readArguments (arguments : List String) : Invocation :=
  readAll {} none arguments

end SchemaMigration.Command
