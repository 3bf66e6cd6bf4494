import VectorStack.Token.Lexer
/-!
Where tokens come from. A store only grows: it holds every text that was read or made during
expansion, and every token cut from one. A token knows the token that caused it, which leads back
from the body of a macro to the place it was used at.
-/

namespace VectorStack

/-- The number of a token in its store. -/
abbrev TokenId := Nat

/-- The number of a source in its store. -/
abbrev SourceId := Nat

/-- A text that tokens are cut from: a file, or what an expansion made. -/
structure Source where
  name : String
  text : Array Char
  /-- The token whose expansion or import brought the text in. -/
  producer : Option TokenId
deriving DecidableEq, Repr, Inhabited

/-- A piece of a source; places count characters. -/
structure Token where
  kind : TokenKind
  source : SourceId
  start : Nat
  length : Nat
  /-- The token that caused this one. -/
  parent : Option TokenId
deriving DecidableEq, Repr, Inhabited

/-- A place in a named text; lines and columns count from one. -/
structure Location where
  source : String
  line : Nat
  column : Nat
deriving DecidableEq, Repr, Inhabited

namespace Location

def format (location : Location) : String :=
  location.source ++ ":" ++ Nat.repr location.line ++ ":" ++ Nat.repr location.column

end Location

/-- Where a token came from, innermost place first. -/
abbrev Trace := List Location

namespace Trace

def format : Trace → String
  | [] => "<unknown>"
  | first :: rest =>
    first.format ++ String.join (rest.map fun place => ", expanded from " ++ place.format)

end Trace

/-- All sources and tokens so far. -/
structure TokenStore where
  sources : Array Source
  tokens : Array Token
deriving Inhabited

namespace TokenStore

/-- The name of texts that expansion makes. -/
def expansionName : String := "<expansion>"

def empty : TokenStore := ⟨#[], #[]⟩

/-- Number of tokens. -/
def size (store : TokenStore) : Nat := store.tokens.size

def token (store : TokenStore) (id : TokenId) : Token := store.tokens.getD id default

def source (store : TokenStore) (id : SourceId) : Source := store.sources.getD id default

/-- The source a token was cut from. -/
def sourceOf (store : TokenStore) (id : TokenId) : Source := store.source (store.token id).source

def kind (store : TokenStore) (id : TokenId) : TokenKind := (store.token id).kind

/-- The characters of a token. -/
def chars (store : TokenStore) (id : TokenId) : List Char :=
  let token := store.token id
  ((store.source token.source).text.extract token.start (token.start + token.length)).toList

def text (store : TokenStore) (id : TokenId) : String := String.ofList (store.chars id)

/-- Add a text. -/
def addSource (store : TokenStore) (name : String) (text : List Char) (producer : Option TokenId) :
    SourceId × TokenStore :=
  (store.sources.size, { store with sources := store.sources.push ⟨name, text.toArray, producer⟩ })

/-- Add a token. -/
def addToken (store : TokenStore) (token : Token) : TokenId × TokenStore :=
  (store.tokens.size, { store with tokens := store.tokens.push token })

/-- Add tokens in order. -/
def addTokens (store : TokenStore) : List Token → List TokenId × TokenStore
  | [] => ([], store)
  | token :: rest =>
    let (id, store) := store.addToken token
    let (ids, store) := store.addTokens rest
    (id :: ids, store)

/-- The token that a lexeme of a source is. -/
def ofLexeme (source : SourceId) (parent : Option TokenId) (lexeme : Lexeme) : Token :=
  ⟨lexeme.kind, source, lexeme.start, lexeme.length, parent⟩

/-- Cut a source into tokens that all have the same parent. -/
def lex (store : TokenStore) (source : SourceId) (parent : Option TokenId) :
    List TokenId × TokenStore :=
  store.addTokens ((Lexer.lex (store.source source).text.toList).map (ofLexeme source parent))

/-- Add a text of its own and cut it into tokens. -/
def load (store : TokenStore) (name : String) (text : List Char) : List TokenId × TokenStore :=
  let (source, store) := store.addSource name text none
  store.lex source none

/-- Add a text made for a token and cut it into tokens. -/
def synthesize (store : TokenStore) (producer : TokenId) (text : List Char) :
    List TokenId × TokenStore :=
  let (source, store) := store.addSource expansionName text (some producer)
  store.lex source (some producer)

/-- Add a text made for a token that is one token of a given kind, whatever the text is. -/
def synthesizeToken (store : TokenStore) (producer : TokenId) (kind : TokenKind)
    (text : List Char) : TokenId × TokenStore :=
  let (source, store) := store.addSource expansionName text (some producer)
  store.addToken ⟨kind, source, 0, text.length, some producer⟩

/-- Add a token like `template` that has the parent `parent`. -/
def copy (store : TokenStore) (template parent : TokenId) : TokenId × TokenStore :=
  store.addToken { store.token template with parent := some parent }

/-- Copy tokens in order, giving all of them the same parent. -/
def copyAll (store : TokenStore) (parent : TokenId) : List TokenId → List TokenId × TokenStore
  | [] => ([], store)
  | template :: rest =>
    let (id, store) := store.copy template parent
    let (ids, store) := store.copyAll parent rest
    (id :: ids, store)

/-- What stands before a token in its source. -/
def before (store : TokenStore) (id : TokenId) : List Char :=
  (store.sourceOf id).text.toList.take (store.token id).start

/-- Where the line begins that a place is on. -/
def lineStart (text : Array Char) : (place : Nat) → Nat
  | 0 => 0
  | place + 1 => if text.getD place ' ' = '\n' then place + 1 else lineStart text place

/-- Where the line ends that a place is on. -/
def lineEnd (text : Array Char) (place : Nat) : Nat :=
  if hplace : place < text.size then
    if text[place] = '\n' then place else lineEnd text (place + 1)
  else place
termination_by text.size - place

/-- Number of line ends before a place. -/
def lineEndsBefore (text : Array Char) (place : Nat) : Nat :=
  text.foldl (fun count c => if c = '\n' then count + 1 else count) 0 0 place

/-- Where a token starts. -/
def location (store : TokenStore) (id : TokenId) : Location :=
  let source := store.sourceOf id
  let place := (store.token id).start
  ⟨source.name, lineEndsBefore source.text place + 1, place - lineStart source.text place + 1⟩

/-- The line of text that a token starts on, without carriage returns at its end. -/
def lineText (store : TokenStore) (id : TokenId) : List Char :=
  let text := (store.sourceOf id).text
  let place := (store.token id).start
  let line := (text.extract (lineStart text place) (lineEnd text place)).toList
  (line.reverse.dropWhile (· == '\r')).reverse

theorem chars_eq (store : TokenStore) (id : TokenId) :
    store.chars id =
      ((store.sourceOf id).text.toList.drop (store.token id).start).take
        (store.token id).length := by
  simp [chars, sourceOf, List.extract_eq_take_drop]

theorem foldl_lineEnds (text : List Char) (count : Nat) :
    text.foldl (fun count c => if c = '\n' then count + 1 else count) count =
      count + text.count '\n' := by
  induction text generalizing count with
  | nil => rfl
  | cons c rest ih =>
      rw [List.foldl_cons, ih, List.count_cons]
      by_cases hend : c = '\n' <;> simp [hend]
      omega

theorem lineEndsBefore_eq (text : Array Char) (place : Nat) :
    lineEndsBefore text place = (text.toList.take place).count '\n' := by
  rw [lineEndsBefore, Array.foldl_eq_foldl_extract, ← Array.foldl_toList, foldl_lineEnds,
    Array.toList_extract, List.extract_eq_take_drop]
  simp

theorem lineStart_le (text : Array Char) (place : Nat) : lineStart text place ≤ place := by
  fun_induction lineStart text place with
  | case1 => exact Nat.le_refl 0
  | case2 => exact Nat.le_refl _
  | case3 _ _ ih => exact Nat.le_succ_of_le ih

/-- A line begins behind the last line end before its place. -/
theorem lineStart_eq {text : Array Char} {place : Nat} (hplace : place ≤ text.size) :
    place - lineStart text place =
      ((text.toList.take place).reverse.takeWhile (· != '\n')).length := by
  induction place with
  | zero => simp [lineStart]
  | succ place ih =>
      have hinside : place < text.size := hplace
      have hstart := lineStart_le text place
      rw [List.take_succ_eq_append_getElem (by simpa using hinside), List.reverse_append,
        List.reverse_singleton, List.singleton_append, List.takeWhile_cons, lineStart,
        Array.getD_eq_getD_getElem?, Array.getElem?_eq_getElem hinside, Array.getElem_toList]
      by_cases hend : text[place] = '\n'
      · simp [hend]
      · simp only [Option.getD_some, hend, if_false, bne_iff_ne, ne_eq, not_false_eq_true,
          if_true, List.length_cons, ← ih (by omega)]
        omega

/-- The line counts the line ends before a token, and the column what follows the last of them. -/
theorem location_eq (store : TokenStore) (id : TokenId)
    (hstart : (store.token id).start ≤ (store.sourceOf id).text.size) :
    store.location id = ⟨(store.sourceOf id).name, (store.before id).count '\n' + 1,
      ((store.before id).reverse.takeWhile (· != '\n')).length + 1⟩ := by
  simp only [location, before, lineEndsBefore_eq, lineStart_eq hstart]

/-- A token followed by its parents, up to the first that has none. Parents come before their
children in the store. -/
def ancestry (store : TokenStore) (id : TokenId) : List TokenId :=
  match (store.token id).parent with
  | none => [id]
  | some parent => if parent < id then id :: store.ancestry parent else [id]
termination_by id

/-- The places that a token came from, its own first. -/
def trace (store : TokenStore) (id : TokenId) : Trace := (store.ancestry id).map store.location

/-- The token that the outermost expansion started from. -/
def origin (store : TokenStore) (id : TokenId) : TokenId := (store.ancestry id).getLastD id

end TokenStore

end VectorStack
