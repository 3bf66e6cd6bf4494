import VectorStack.Assembly
import VectorStack.Proofs.Expansion.Provenance
import VectorStack.Proofs.Layout.Traced
/-!
Everything leads back to the text that is assembled. Whatever is imported, defined and expanded on
the way, every token has parents up to a token of the main text, and a fault, whichever it is, is
traced back to one.
-/

namespace VectorStack

namespace Assembly

open TokenStore

/-- The texts and tokens that building a program makes, also where it fails. Once the text is
expanded, no more are added. -/
def builtStore (config : AssemblyConfig) (importer : Importer) (name : String)
    (text : List Char) : TokenStore :=
  let (tokens, store) := TokenStore.empty.load name text
  (Expansion.start config importer store).finalStore (.ofTokens tokens)

variable {config : AssemblyConfig} {importer : Importer} {name : String} {text : List Char}

theorem store_of_build {program : Program} {symbols : Symbols}
    (hbuild : build config importer name text = .ok (program, symbols)) :
    symbols.store = builtStore config importer name text := by
  obtain ⟨⟨statements, store⟩, hparse, hbuild⟩ := bind_eq_ok.mp hbuild
  obtain ⟨image, -, hbuild⟩ := bind_eq_ok.mp hbuild
  cases hbuild
  obtain ⟨⟨expanded, later⟩, hexpand, hparse⟩ := bind_eq_ok.mp hparse
  obtain ⟨others, -, hparse⟩ := bind_eq_ok.mp hparse
  cases hparse
  exact (Expansion.finalStore_of_run hexpand).symm

variable (config importer name text)

theorem has_ofTokens_load :
    (empty.load name text).2.Has (Pending.ofTokens (empty.load name text).1).tokens := by
  rw [Pending.tokens, Pending.join_eq, Pending.ofTokens, List.flatten_singleton]
  exact lt_size_addText empty name text none

theorem grownFrom_builtStore : (builtStore config importer name text).GrownFrom name text :=
  Expansion.grows_finalStore (.start config importer _) (has_ofTokens_load name text)

/-- What is parsed holds tokens of the store that it is parsed into. -/
theorem traced_parse :
    Traced (empty.load name text).2
      (fun parsed => (empty.load name text).2.Grows parsed.2 ∧
        parsed.2.Has (parsed.1.flatMap Statement.tokens)) (parse config importer name text) := by
  have hstart := Expansion.Known.start config importer (empty.load name text).2
  have hexpand := Expansion.traced_run hstart (has_ofTokens_load name text)
  refine hexpand.bind fun expanded hexpanded => ?_
  refine .of_grows hexpanded.1 ((traced_statements hexpanded.2).bind fun statements hheld => ?_)
  exact .ok ⟨hexpanded.1, hheld⟩

theorem traced_build :
    Traced (empty.load name text).2 (fun _ => True) (build config importer name text) := by
  refine (traced_parse config importer name text).bind fun parsed hparsed => ?_
  refine .of_grows hparsed.1 ((Image.traced_ofStatements hparsed.2).andThen fun image => ?_)
  exact .ok trivial

/-- Whatever the text, the files and the configuration, the parents of every token that is made
have smaller and smaller numbers and lead back to a token of the main text, and when building fails,
the trace of the fault ends at the place of a token of the main text. -/
theorem build_provenance :
    (∀ id < (builtStore config importer name text).size,
      (builtStore config importer name text).LeadsBack name text id) ∧
    (∀ program symbols, build config importer name text = .ok (program, symbols) →
      symbols.store = builtStore config importer name text) ∧
    ∀ error, build config importer name text = .error error →
      ∃ lexeme ∈ Lexer.lex text, error.trace.getLast? = some (lexeme.location name text) := by
  refine ⟨fun id hlt => ?_, fun program symbols hbuild => store_of_build hbuild, ?_⟩
  · exact (grownFrom_builtStore config importer name text).leadsBack hlt
  · intro error herror
    have htraced := traced_build config importer name text
    rw [herror] at htraced
    exact htraced.getLast?_trace (.refl _)

/-- The macro `m` stands for `x`, which is no instruction. -/
def unknownInMacro : List Char := ['.', 'm', 'a', 'c', 'r', 'o', ' ', 'm', ' ', 'x', '\n', 'm']

theorem build_provenance_macro :
    (builtStore .standard (fun _ _ => none) "main" unknownInMacro).ancestry 5 = [5, 4] ∧
      (builtStore .standard (fun _ _ => none) "main" unknownInMacro).LeadsBack "main"
        unknownInMacro 5 ∧
      ∃ error, build .standard (fun _ _ => none) "main" unknownInMacro = .error error ∧
        error.trace = [⟨"main", 1, 10⟩, ⟨"main", 2, 1⟩] ∧
        ∃ lexeme ∈ Lexer.lex unknownInMacro,
          error.trace.getLast? = some (lexeme.location "main" unknownInMacro) := by
  let loaded := TokenStore.empty.load "main" unknownInMacro
  have hruns : (Expansion.runWithin? 8 (.start .standard (fun _ _ => none) loaded.2)
      (.ofTokens loaded.1)).bind (fun answer => answer.toOption.map fun expanded =>
        (expanded.2.size, expanded.2.ancestry 5,
          match expanded.2.statements expanded.1 with
          | .ok _ => none
          | .error error => some error.trace)) =
      some (6, [5, 4], some [⟨"main", 1, 10⟩, ⟨"main", 2, 1⟩]) := by decide +kernel
  obtain ⟨⟨expanded, store⟩, hexpand, hread⟩ := Expansion.exists_answer hruns
  obtain ⟨hsize, hread⟩ := Prod.mk.inj hread
  obtain ⟨hancestry, htrace⟩ := Prod.mk.inj hread
  have hstore : builtStore .standard (fun _ _ => none) "main" unknownInMacro = store :=
    Expansion.finalStore_of_run hexpand
  obtain ⟨hleads, -, hfails⟩ := build_provenance .standard (fun _ _ => none) "main" unknownInMacro
  rw [hstore] at hleads ⊢
  refine ⟨hancestry, hleads 5 (by rw [hsize]; decide), ?_⟩
  split at htrace
  · cases htrace
  · next error herror =>
      have hparse : parse .standard (fun _ _ => none) "main" unknownInMacro = .error error :=
        bind_eq_error.mpr (.inr ⟨_, hexpand, bind_eq_error.mpr (.inl herror)⟩)
      have hbuild : build .standard (fun _ _ => none) "main" unknownInMacro = .error error :=
        bind_eq_error.mpr (.inl hparse)
      exact ⟨error, hbuild, Option.some.inj htrace, hfails error hbuild⟩

end Assembly

end VectorStack
