import VectorStack.Assembly.Config
import VectorStack.Assembly.Macro
import VectorStack.Assembly.Pending
/-!
The macro language. Expansion reads tokens one at a time, and each of them either goes to the output
or makes something happen: a macro is defined or used, text is imported, a block is opened or
skipped. What a use or a directive produces is put on top of the tokens still to be read. The main
statement is that every step makes those tokens smaller in an order without infinite descent.
-/

namespace VectorStack

/-- Directives whose argument list is expanded before they act on it. -/
inductive Splice where
  /-- The argument behind the names of all open namespaces. -/
  | qualify
  /-- Use of the macro that the argument names. -/
  | invoke
  /-- All arguments joined to one token. -/
  | concat
  /-- The argument as a label. -/
  | label
  /-- The sum of the arguments. -/
  | sum
deriving DecidableEq, Repr

/-- The directives of the macro language. -/
inductive Directive where
  | define
  | undefine
  | importText
  | region
  | condition
  /-- A block that is taken when a name is a macro, or when it is none. -/
  | defined (wanted : Bool)
  | otherwise
  | openNamespace
  | closeNamespace
  | splice (kind : Splice)
deriving DecidableEq, Repr

namespace Directive

/-- The directive of a given name, which is written behind a dot. -/
def ofName? : String → Option Directive
  | "macro" => some .define
  | "unmacro" => some .undefine
  | "import" => some .importText
  | "region" => some .region
  | "if" => some .condition
  | "ifdef" => some (.defined true)
  | "ifndef" => some (.defined false)
  | "else" => some .otherwise
  | "ns" => some .openNamespace
  | "endns" => some .closeNamespace
  | "addns" => some (.splice .qualify)
  | "tomacro" => some (.splice .invoke)
  | "concat" => some (.splice .concat)
  | "label" => some (.splice .label)
  | "add" => some (.splice .sum)
  | _ => none

end Directive

/-- A conditional block that is being expanded. -/
structure Block where
  opening : TokenId
  isElse : Bool
deriving DecidableEq, Repr

/-- An argument list that is being read and expanded. -/
structure Capture where
  splice : Splice
  directive : TokenId
  opening : TokenId
  /-- Whether a star stands right before the directive. -/
  afterStar : Bool
  reader : ArgumentReader
deriving Repr

/-- What expansion knows, apart from the tokens still to be read. -/
structure Expansion where
  config : AssemblyConfig
  importer : Importer
  store : TokenStore
  /-- Macros by their full names. -/
  macros : List (String × Macro)
  /-- Open namespaces, the innermost first. -/
  namespaces : List String
  /-- Blocks being expanded, the innermost first. -/
  blocks : List Block
  /-- Whether the conditional block that ended last was taken, for an `else` that follows it. -/
  lastTaken : Option Bool
  /-- Where the lowest region starts. -/
  regionStart : Nat
  output : Array TokenId
  /-- Argument lists being read, the innermost first. -/
  captures : List Capture

/-- What one token makes happen. -/
structure Reaction where
  state : Expansion
  /-- Tokens read beyond the first. -/
  consumed : Nat
  /-- Tokens to be read next. -/
  frame : Option (List TokenId)
  /-- Where a stack that is too deep is reported. -/
  cause : TokenId

namespace Expansion

/-- A name behind the names of namespaces, the innermost of which comes first. -/
def qualifyIn (namespaces : List String) (name : String) : String :=
  String.intercalate "." (namespaces.reverse ++ [name])

def qualify (s : Expansion) (name : String) : String := qualifyIn s.namespaces name

/-- The full names that a name can stand for, the innermost namespace first. -/
def candidates (name : String) : List String → List String
  | [] => [name]
  | innermost :: outer => qualifyIn (innermost :: outer) name :: candidates name outer

def isDefined (s : Expansion) (key : String) : Bool := (s.macros.lookup key).isSome

/-- The full name of the macro that a name stands for. -/
def lookup? (s : Expansion) (name : String) : Option String :=
  (candidates name s.namespaces).find? s.isDefined

def fault (s : Expansion) (token : TokenId) (message : String) : AssemblyError :=
  s.store.expansionFault token message

/-- Nothing more is read and nothing is put on top. -/
def settle (s : Expansion) (token : TokenId) : Except AssemblyError Reaction :=
  .ok ⟨s, 0, none, token⟩

/-- Add tokens to the output. -/
def emit (s : Expansion) (tokens : List TokenId) : Expansion :=
  { s with output := s.output ++ tokens }

/-- Put text made for a token on top. -/
def splice (s : Expansion) (producer : TokenId) (text : List Char) (consumed : Nat) : Reaction :=
  let (tokens, store) := s.store.synthesize producer text
  ⟨{ s with store }, consumed, some tokens, producer⟩

/-- Put a label into the output, behind the names of the open namespaces. -/
def emitLabel (s : Expansion) (token : TokenId) : Expansion :=
  if s.namespaces.isEmpty then s.emit [token]
  else
    let name := s.qualify (s.store.text token)
    let (tokens, store) := s.store.synthesize token (name ++ ":").toList
    { s with store }.emit tokens

/-- Define a macro. -/
def define (s : Expansion) (directive : TokenId) (tokens : List TokenId) :
    Except AssemblyError Reaction := do
  let (name, rest) ← s.store.expect directive .word "a macro name" tokens
  let key := s.qualify (s.store.text name)
  if s.isDefined key then
    .error (s.fault name ("macro `" ++ key ++ "` is already defined"))
  else
    let ((params, restName), listed) ← s.store.readParameterList directive rest
    let (body, taken) ← s.store.readBody (rest.drop listed)
    .ok ⟨{ s with macros := (key, ⟨params, restName, body⟩) :: s.macros },
      1 + listed + taken, none, directive⟩

/-- Forget a macro. -/
def undefine (s : Expansion) (directive : TokenId) (tokens : List TokenId) :
    Except AssemblyError Reaction := do
  let (token, _) ← s.store.expect directive .word "a macro name" tokens
  let name := s.store.text token
  match s.lookup? name with
  | some key =>
    .ok ⟨{ s with macros := s.macros.filter (·.1 != key) }, 1, none, directive⟩
  | none => .error (s.fault token ("macro `" ++ name ++ "` is not defined"))

/-- Use a macro: its arguments are what the tokens start with, and its text goes on top. -/
def invoke (s : Expansion) (key : String) (invoker : TokenId) (tokens : List TokenId) :
    Except AssemblyError Reaction := do
  match s.macros.lookup key with
  | none => .error (s.fault invoker ("unknown macro `" ++ key ++ "`"))
  | some definition =>
    let named := definition.params.length
    let listed := (tokens.head?.map s.store.kind) = some .openParen
    let (arguments, taken) ←
      if listed then s.store.readArguments invoker (definition.rest.map fun _ => named) tokens
      else .ok ([], 0)
    if definition.accepts arguments.length then
      let (copies, store) := s.store.copyAll invoker (definition.instantiate s.store arguments)
      .ok ⟨{ s with store }, taken, some copies, invoker⟩
    else
      .error (s.fault invoker ("macro `" ++ key ++ "` takes " ++ Nat.repr named ++
        " arguments, not " ++ Nat.repr arguments.length))

/-- Put imported text on top. -/
def importText (s : Expansion) (directive : TokenId) (tokens : List TokenId) :
    Except AssemblyError Reaction := do
  let (target, _) ← s.store.require directive "a file name" tokens
  let file ← match s.store.kind target with
    | .string =>
      match StringLiteral.unescape? (s.store.chars target) with
      | some name => .ok (String.ofList name)
      | none => .error (s.store.faultAt target (.invalidToken (s.store.text target)))
    | .word => .ok (s.store.text target)
    | _ => .error (s.fault target "expected a file name to import")
  match s.importer file (s.store.sourceOf directive).name with
  | none => .error (s.store.faultAt directive (.importFailed file))
  | some (name, text) =>
    let (source, store) := s.store.addSource name text (some directive)
    let (imported, store) := store.lex source (some directive)
    .ok ⟨{ s with store }, 1, some imported, directive⟩

/-- Take a region of memory below the regions before it, and label its start, or its end where a
minus sign stands before its size. -/
def region (s : Expansion) (directive : TokenId) (tokens : List TokenId) :
    Except AssemblyError Reaction := do
  let (name, rest) ← s.store.expect directive .word "a region name" tokens
  let atEnd := (rest.head?.map s.store.kind) == some .minus
  let rest := if atEnd then rest.drop 1 else rest
  let (size, _) ← s.store.expect directive .number "a region size" rest
  match (Number.parse? (s.store.chars size)).bind Number.natural? with
  | none => .error (s.fault size "region size must be a non-negative integer")
  | some bytes =>
    if s.regionStart < bytes then
      .error (s.fault size "regions do not fit below the region base")
    else
      let start := s.regionStart - bytes
      let label := if atEnd then s.regionStart else start
      let text := "@" ++ Nat.repr label ++ " " ++ s.store.text name ++ ":"
      .ok ({ s with regionStart := start }.splice directive text.toList (if atEnd then 3 else 2))

/-- Open a conditional block, or skip it. Its tokens come behind `before` others. -/
def enterBlock (s : Expansion) (cause : TokenId) (taken isElse : Bool) (before : Nat)
    (tokens : List TokenId) : Except AssemblyError Reaction := do
  let (opening, started) ← s.store.readBlockStart cause 0 tokens
  if taken then
    .ok ⟨{ s with blocks := ⟨opening, isElse⟩ :: s.blocks }, before + started, none, cause⟩
  else
    let ended ← s.store.skipBlock opening 1 started (tokens.drop started)
    .ok ⟨{ s with lastTaken := if isElse then none else some false }, before + ended, none, cause⟩

/-- Decide a conditional block by the value of an expression. -/
def condition (s : Expansion) (directive : TokenId) (tokens : List TokenId) :
    Except AssemblyError Reaction := do
  let (group, taken) ← s.store.readGroup directive tokens
  let (expression, _) ← Expression.parse s.store group
  let value ← expression.evaluate s.store fun _ => none
  s.enterBlock directive (!value.isZero) false taken (tokens.drop taken)

/-- Decide a conditional block by whether a name is a macro. -/
def conditionDefined (s : Expansion) (directive : TokenId) (wanted : Bool)
    (tokens : List TokenId) : Except AssemblyError Reaction := do
  let (name, rest) ← s.store.expect directive .word "a macro name" tokens
  s.enterBlock directive ((s.lookup? (s.store.text name)).isSome == wanted) false 1 rest

/-- Decide a conditional block against the one before it. -/
def otherwise (s : Expansion) (directive : TokenId) (before : Option Bool)
    (tokens : List TokenId) : Except AssemblyError Reaction :=
  match before with
  | some taken => s.enterBlock directive (!taken) true 0 tokens
  | none => .error (s.fault directive "`.else` without a conditional block before it")

/-- Open a namespace. -/
def openNamespace (s : Expansion) (directive : TokenId) (tokens : List TokenId) :
    Except AssemblyError Reaction := do
  let (name, _) ← s.store.expect directive .word "a namespace name" tokens
  .ok ⟨{ s with namespaces := s.store.text name :: s.namespaces }, 1, none, directive⟩

/-- Close the innermost namespace. -/
def closeNamespace (s : Expansion) (directive : TokenId) : Except AssemblyError Reaction :=
  match s.namespaces with
  | _ :: outer => { s with namespaces := outer }.settle directive
  | [] => .error (s.fault directive "`.endns` without `.ns`")

/-- Start to read the argument list of a directive. -/
def startCapture (s : Expansion) (kind : Splice) (directive : TokenId) (afterStar : Bool)
    (tokens : List TokenId) : Except AssemblyError Reaction := do
  let (opening, _) ← s.store.expect directive .openParen "`(`" tokens
  let capture : Capture := ⟨kind, directive, opening, afterStar, .start⟩
  .ok ⟨{ s with captures := capture :: s.captures }, 1, none, directive⟩

/-- Act on a directive. `before` is whether a conditional block that ended right before was taken,
and `previous` the token read before the directive. -/
def direct (s : Expansion) (directive : TokenId) (before : Option Bool)
    (previous : Option TokenId) (tokens : List TokenId) : Except AssemblyError Reaction :=
  let name := String.ofList ((s.store.chars directive).drop 1)
  match Directive.ofName? name with
  | some .define => s.define directive tokens
  | some .undefine => s.undefine directive tokens
  | some .importText => s.importText directive tokens
  | some .region => s.region directive tokens
  | some .condition => s.condition directive tokens
  | some (.defined wanted) => s.conditionDefined directive wanted tokens
  | some .otherwise => s.otherwise directive before tokens
  | some .openNamespace => s.openNamespace directive tokens
  | some .closeNamespace => s.closeNamespace directive
  | some (.splice kind) =>
    s.startCapture kind directive (previous.map s.store.kind == some .star) tokens
  | none =>
    match s.lookup? name with
    | some key => s.invoke key directive tokens
    | none => .error (s.fault directive ("unknown macro `" ++ name ++ "`"))

/-- Act on a token outside of argument lists. -/
def process (s : Expansion) (token : TokenId) (previous : Option TokenId) (pending : Pending) :
    Except AssemblyError Reaction :=
  let before := s.lastTaken
  let fresh := { s with lastTaken := none }
  match s.store.kind token with
  | .comment => s.settle token
  | .lineEnd => (s.emit [token]).settle token
  | .invalid => .error (s.store.faultAt token (.invalidToken (s.store.text token)))
  | .openBrace => .error (s.fault token "unexpected `\x7b`")
  | .closeBrace =>
    match s.blocks with
    | [] => .error (s.fault token "unbalanced `\x7d`")
    | block :: outer =>
      { s with blocks := outer, lastTaken := if block.isElse then none else some true }.settle token
  | .directive => fresh.direct token before previous pending.tokens
  | .label => (fresh.emitLabel token).settle token
  | .word =>
    match s.lookup? (s.store.text token) with
    | some key => fresh.invoke key token pending.tokens
    | none => (fresh.emit [token]).settle token
  | _ => (fresh.emit [token]).settle token

/-- The word that is the only argument, and all of it. -/
def singleWord (s : Expansion) (cause : TokenId) (arguments : List (List TokenId)) :
    Except AssemblyError TokenId :=
  match arguments with
  | [[word]] =>
    if s.store.kind word = .word then .ok word
    else .error (s.fault cause "expected a single word argument")
  | _ => .error (s.fault cause "expected a single word argument")

/-- The number that a numeric literal stands for. -/
def literal (s : Expansion) (token : TokenId) : Except AssemblyError Number :=
  if s.store.kind token = .number then
    match Number.parse? (s.store.chars token) with
    | some number => .ok number
    | none => .error (s.store.faultAt token (.invalidToken (s.store.text token)))
  else .error (s.fault token "expected a numeric literal")

/-- The number that one argument of a sum stands for, and whether it is a width, with the token
that says so. -/
def summand (s : Expansion) (directive : TokenId) (argument : List TokenId) :
    Except AssemblyError (Number × Option TokenId) :=
  match argument with
  | [number] => do .ok (← s.literal number, none)
  | [sign, number] =>
    match s.store.kind sign with
    | .minus => do .ok ((← s.literal number).neg, none)
    | .star => do .ok (← s.literal number, some number)
    | _ => .error (s.fault sign "expected `-` or `*`")
  | _ => .error (s.fault directive "`.add` takes numeric literals or widths")

/-- Add arguments to a sum; `widths` says whether those before were widths. -/
def sumFrom (s : Expansion) (directive : TokenId) (sum : Number) (widths : Option Bool) :
    List (List TokenId) → Except AssemblyError (Number × Option Bool)
  | [] => .ok (sum, widths)
  | argument :: rest => do
    let (value, width) ← s.summand directive argument
    if widths.any (· != width.isSome) then
      .error (s.fault directive "`.add` cannot mix widths and literals")
    else
      match width with
      | some token =>
        if value.natural?.isNone then
          .error (s.fault token "a width must be a non-negative integer")
        else s.sumFrom directive (sum.add value) (some true) rest
      | none => s.sumFrom directive (sum.add value) (some false) rest

/-- Act on the arguments of a directive. -/
def finishCapture (s : Expansion) (capture : Capture) (arguments : List (List TokenId))
    (tokens : List TokenId) : Except AssemblyError Reaction := do
  let directive := capture.directive
  match capture.splice with
  | .qualify =>
    let word ← s.singleWord directive arguments
    .ok (s.splice directive (s.qualify (s.store.text word)).toList 0)
  | .invoke =>
    let word ← s.singleWord directive arguments
    match s.lookup? (s.store.text word) with
    | some key => s.invoke key directive tokens
    | none => .error (s.fault word ("unknown macro `" ++ s.store.text word ++ "`"))
  | .concat =>
    let text := arguments.flatten.flatMap s.store.chars
    let reaction := s.splice directive text 0
    let made := (reaction.frame.getD []).length
    if made = 1 then .ok reaction
    else
      .error (s.fault directive ("`.concat` made " ++ Nat.repr made ++ " tokens of `" ++
        String.ofList text ++ "`"))
  | .label =>
    let word ← s.singleWord directive arguments
    .ok (s.splice directive (s.store.chars word ++ [':']) 0)
  | .sum =>
    let (sum, widths) ← s.sumFrom directive (.ofNat 0) none arguments
    let needsStar := widths == some true && !capture.afterStar
    let (star, store) :=
      if needsStar then
        let (star, store) := s.store.synthesizeToken directive .star ['*']
        ([star], store)
      else ([], s.store)
    let (number, store) := store.synthesizeToken directive .number sum.literal.toList
    .ok ⟨{ s with store }, 0, some (star ++ [number]), directive⟩

/-- Act on a token inside the argument list of a directive. -/
def feedCapture (s : Expansion) (capture : Capture) (outer : List Capture) (token : TokenId)
    (previous : Option TokenId) (pending : Pending) : Except AssemblyError Reaction :=
  match s.store.kind token with
  | .lineEnd => .error (ArgumentReader.unclosed s.store capture.opening)
  | .directive => s.direct token none previous pending.tokens
  | kind =>
    match capture.reader.feed none kind token with
    | .inl reader => { s with captures := { capture with reader } :: outer }.settle token
    | .inr arguments =>
      { s with captures := outer }.finishCapture capture arguments pending.tokens

/-- What a token makes happen, where `pending` is what comes behind it. -/
def react (s : Expansion) (token : TokenId) (previous : Option TokenId) (pending : Pending) :
    Except AssemblyError Reaction :=
  match s.captures with
  | [] => s.process token previous pending
  | capture :: outer => s.feedCapture capture outer token previous pending

/-- The tokens still to be read after a reaction. -/
def advance (reaction : Reaction) (pending : Pending) : Except AssemblyError Pending :=
  let left := pending.drop reaction.consumed
  match reaction.frame with
  | none => .ok left
  | some frame =>
    match left.push? frame with
    | some pushed => .ok pushed
    | none => .error (reaction.state.fault reaction.cause "macro expansion nested too deeply")

/-- Read one token and act on it. The result is the state alone when no token is left. -/
def step (s : Expansion) (pending : Pending) :
    Except AssemblyError (Expansion × Option Pending) := do
  match pending.read? with
  | none => .ok (s, none)
  | some (token, rest) =>
    let reaction ← s.react token pending.last rest
    let next ← advance reaction rest
    .ok (reaction.state, some next)

theorem frames_advance {reaction : Reaction} {pending next : Pending}
    (hadvance : advance reaction pending = .ok next) :
    ∃ above, next.frames = above ++ (pending.drop reaction.consumed).frames := by
  unfold advance at hadvance
  cases hframe : reaction.frame with
  | none =>
      rw [hframe] at hadvance
      cases hadvance
      exact ⟨[], rfl⟩
  | some tokens =>
      rw [hframe] at hadvance
      dsimp only [Pending.push?] at hadvance
      split at hadvance
      · next pushed hpush =>
          split at hpush
          · cases hpush
            cases hadvance
            exact ⟨[tokens], rfl⟩
          · cases hpush
      · cases hadvance

/-- Every step makes the tokens still to be read smaller. -/
theorem less_rank_of_step {s after : Expansion} {pending next : Pending}
    (hstep : s.step pending = .ok (after, some next)) :
    Rank.Less Pending.maxFrames next.rank pending.rank := by
  unfold step at hstep
  cases hread : pending.read? with
  | none =>
      rw [hread] at hstep
      cases hstep
  | some found =>
      obtain ⟨token, rest⟩ := found
      simp only [hread, bind, Except.bind] at hstep
      cases hreact : s.react token pending.last rest with
      | error fault =>
          rw [hreact] at hstep
          cases hstep
      | ok reaction =>
          rw [hreact] at hstep
          dsimp only at hstep
          cases hadvance : advance reaction rest with
          | error fault =>
              rw [hadvance] at hstep
              cases hstep
          | ok moved =>
              rw [hadvance] at hstep
              cases hstep
              obtain ⟨above, hframes⟩ := frames_advance hadvance
              exact Pending.less_rank_of_read?_of_drop hread hframes

/-- What is left open when no token is left is a fault. -/
def finish (s : Expansion) : Except AssemblyError (List TokenId × TokenStore) :=
  match s.captures, s.blocks with
  | capture :: _, _ => .error (ArgumentReader.unclosed s.store capture.opening)
  | [], block :: _ =>
    .error (s.fault block.opening "unbalanced `\x7b`: block is never closed")
  | [], [] => .ok (s.output.toList, s.store)

/-- Expand until no token is left. -/
def run (s : Expansion) (pending : Pending) :
    Except AssemblyError (List TokenId × TokenStore) :=
  match _stepped : s.step pending with
  | .error fault => .error fault
  | .ok (after, none) => after.finish
  | .ok (after, some next) => after.run next
termination_by pending.rank
decreasing_by exact less_rank_of_step _stepped

/-- Before anything is read. -/
def start (config : AssemblyConfig) (importer : Importer) (store : TokenStore) : Expansion :=
  { config, importer, store, macros := [], namespaces := [], blocks := [], lastTaken := none
    regionStart := config.regionBase, output := #[], captures := [] }

/-- Expand tokens completely. The result is the tokens for the parser, and a store that holds them
and everything made on the way. -/
def expand (config : AssemblyConfig) (importer : Importer) (store : TokenStore)
    (tokens : List TokenId) : Except AssemblyError (List TokenId × TokenStore) :=
  (start config importer store).run (.ofTokens tokens)

end Expansion

end VectorStack
