import VectorStack.Proofs.Expansion.QualifiedNames
import VectorStack.Proofs.Layout.Requests
import VectorStack.Proofs.Program.Regions
/-!
Labels and references in programs. In a program that is built the label and the reference that
namespaces and words give one name to agree: the reference stands for the address of the label
wherever the program takes it for a value. The exception is a lone underscore, which is read as an
operand on the stack.
-/

namespace VectorStack

variable {config : AssemblyConfig} {importer : Importer} {name : String} {text : List Char}
  {store : TokenStore} {layout : Layout} {statements : List Statement} {token : TokenId}
  {address : Nat}

/-- What a word stands for wherever a program takes it for a value: it is read as a name, and it has
the same address as a number, behind an instruction word and in an expression. -/
structure TokenStore.StandsFor (store : TokenStore) (layout : Layout) (token : TokenId)
    (address : Nat) : Prop where
  readWritten_eq (cause : TokenId) (rest : List TokenId) :
    store.readWritten cause (token :: rest) = .ok (.word token, rest)
  termNumber_eq (first : TokenId) (copies : Nat) :
    layout.termNumber store ⟨.word token, first, copies⟩ = .ok (.ofNat address)
  operandAddress_direct (pool : ConstantPool) :
    Image.operandAddress layout store pool (.direct token) = .ok (some address)
  operandAddress_inlined (pool : ConstantPool) (first : TokenId) (copies : Nat) :
    Image.operandAddress layout store pool (.inlined ⟨.word token, first, copies⟩) =
      .ok (some address)
  leafValue_eq :
    Expression.leafValue store (addressOf? layout.labels) token = .ok (.ofNat address)

/-- A word other than the underscore stands for the address of its label. -/
theorem TokenStore.standsFor_of_addressOf?
    (hplaced : Layout.ofStatements store config statements = .ok layout)
    (hkind : store.kind token = .word) (hname : store.text token ≠ "_")
    (hfound : addressOf? layout.labels (store.text token) = some address) :
    store.StandsFor layout token address := by
  have hnumber (first : TokenId) (copies : Nat) :
      layout.termNumber store ⟨.word token, first, copies⟩ = .ok (.ofNat address) := by
    rw [Layout.termNumber]
    dsimp only
    rw [hfound]
  refine ⟨fun cause rest => ?_, hnumber, fun pool => ?_, fun pool first copies => ?_, ?_⟩
  · unfold readWritten
    dsimp only
    rw [hkind]
    dsimp only
    rw [if_neg hname]
  · rw [Image.operandAddress, hfound]
  · have hlt := Layout.addressOf?_lt hplaced hfound
    have hword : Address.wrap (UInt64.ofNat address).toNat = address := by
      rw [UInt64.toNat_ofNat_of_lt' (Nat.lt_trans hlt (by decide)), Address.wrap_eq_self hlt]
    rw [Image.operandAddress, hnumber]
    change Except.ok (some (Address.wrap (UInt64.ofNat address).toNat)) = _
    rw [hword]
  · rw [Expression.leafValue, if_pos hkind, hfound]

/-- A label among the tokens of a program stands where it was placed. -/
theorem Image.exists_label_of_token {front back : List TokenId} {image : Image}
    (hread : store.statements (front ++ token :: back) = .ok statements)
    (hkind : store.kind token = .label)
    (himage : ofStatements store config statements = .ok image) :
    ∃ address, ⟨store.text token, address, token⟩ ∈ image.labels := by
  obtain ⟨before, after, rfl, hafter⟩ := TokenStore.statements_of_mark (.inl hkind) hread
  rw [TokenStore.statements_label hkind] at hafter
  obtain ⟨rest, -, rfl⟩ := map_eq_ok.mp hafter
  obtain ⟨layout, pool, -, -, -, hlaidOut⟩ := exists_laidOut himage
  obtain ⟨-, -, -, -, address, -, -, -, hmem⟩ := hlaidOut.exists_label
  exact ⟨address, hmem⟩

namespace Assembly

/-- States that the expansion of a text goes through. -/
def Visits (config : AssemblyConfig) (importer : Importer) (name : String) (text : List Char)
    (s : Expansion) (pending : Pending) : Prop :=
  Expansion.Reaches (.start config importer (TokenStore.empty.load name text).2)
    (.ofTokens (TokenStore.empty.load name text).1) s pending

variable {s t : Expansion} {pending left : Pending} {kind : TokenKind} {word target : String}
  {written more listed behind expanded : List TokenId}

theorem Visits.sound (hvisits : Visits config importer name text s pending) : s.Sound pending :=
  Expansion.Reaches.sound hvisits (Expansion.sound_load config importer name text)

theorem Visits.expand_eq (hvisits : Visits config importer name text s pending) :
    Expansion.expand config importer (TokenStore.empty.load name text).2
      (TokenStore.empty.load name text).1 = s.run pending :=
  Expansion.Reaches.run_eq hvisits

/-- The token that a label or a reference becomes stays in its place of the output. -/
theorem Visits.exists_token (hvisits : Visits config importer name text s pending)
    (hmeets : s.Meets pending kind word written more)
    (hexpand : Expansion.expand config importer (TokenStore.empty.load name text).2
      (TokenStore.empty.load name text).1 = .ok (expanded, store)) :
    ∃ back token, expanded = s.output.toList ++ token :: back ∧ store.kind token = kind ∧
      store.text token = s.qualify word := by
  have hsound := hvisits.sound
  have hroom : pending.HasRoom written := by
    refine by_contra fun hfull => ?_
    obtain ⟨directive, later, -, -, hfault⟩ := hmeets.run_eq_error hsound hfull
    cases (hvisits.expand_eq.trans hfault).symm.trans hexpand
  obtain ⟨after, next, token, hreaches, -, hputs⟩ := hmeets.exists_puts hsound hroom
  have hrun : after.run next = .ok (expanded, store) := by
    rw [← hreaches.run_eq, ← hvisits.expand_eq, hexpand]
  obtain ⟨hextends, back, hexpanded⟩ := Expansion.grows_run hrun
  have hmem : token ∈ after.output.toList := by
    rw [hputs.output_eq]
    exact List.mem_append_right _ List.mem_cons_self
  have hword := ((hreaches.sound hsound).output token hmem).isWord_text
    (hputs.kind_eq ▸ hmeets.names.isWordKind)
  refine ⟨back, token, ?_, ?_, ?_⟩
  · rw [hexpanded, hputs.output_eq, List.append_assoc, List.singleton_append]
  · rw [hextends.kind_eq hputs.token_lt, hputs.kind_eq]
  · rw [hextends.text_eq hputs.token_lt hword, hputs.text_eq]

/-- The text that is so many imports away from the first one. Each imports the next, down to one
that holds a reference. -/
def chainText (depth : Nat) : List Char :=
  if depth < 255 then ".import a".toList else ".addns(w)".toList

/-- Imported texts have longer names than those that import them. -/
def chain : Importer := fun _ source => some (source ++ "a", chainText (source.length - 3))

/-- Expansion comes to a text of the chain with the used-up lists of all texts before. -/
structure Chained (depth : Nat) (s : Expansion) (pending : Pending) : Prop where
  captures_eq : s.captures = []
  importer_eq : s.importer = chain
  macros_eq : s.macros = []
  namespaces_eq : s.namespaces = []
  exists_frames : ∃ first,
    pending.frames = List.range' first (Lexer.lex (chainText depth)).length ::
      List.replicate depth [] ∧
    ∀ (index : Nat) (lexeme : Lexeme), (Lexer.lex (chainText depth))[index]? = some lexeme →
      s.store.kind (first + index) = lexeme.kind ∧
      s.store.chars (first + index) = lexeme.chars (chainText depth) ∧
      (s.store.sourceOf (first + index)).name.length = depth + 4

theorem Chained.step {depth : Nat} (hchained : Chained depth s pending) (hlt : depth < 255) :
    ∃ after next, s.step pending = .ok (after, some next) ∧ Chained (depth + 1) after next := by
  obtain ⟨hcaptures, himporter, hmacros, hnamespaces, first, hframes, htokens⟩ := hchained
  have htext : chainText depth = ".import a".toList := if_pos hlt
  have hlex : Lexer.lex ".import a".toList = [⟨.directive, 0, 7⟩, ⟨.word, 8, 1⟩] := by
    decide +kernel
  rw [htext, hlex] at hframes htokens
  obtain ⟨hkind, hchars, hlength⟩ := htokens 0 _ rfl
  obtain ⟨hfile, -, -⟩ := htokens 1 _ rfl
  rw [Nat.add_zero] at hkind hchars hlength
  have hname : s.store.directiveName first = "import" := by
    rw [TokenStore.directiveName, hchars]
    rfl
  have hdrop : (pending.drop 2).frames = [] :: List.replicate depth [] :=
    @Pending.frames_drop pending [first, first + 1] [] _ hframes
  have hread : pending.tokens = first :: (first + 1) :: (List.replicate depth []).flatten := by
    rw [Pending.tokens, Pending.join_eq, hframes]
    rfl
  have hroom : (pending.drop 2).frames.length < Pending.maxFrames := by
    rw [hdrop, List.length_cons, List.length_replicate]
    change depth + 1 < 256
    omega
  let source := (s.store.sourceOf first).name
  have hsource : source.length = depth + 4 := hlength
  have himport : s.importer (s.store.text (first + 1)) source =
      some (source ++ "a", chainText (depth + 1)) := by
    rw [himporter, chain, hsource]
    rfl
  obtain ⟨next, hstep, hnext⟩ :=
    Expansion.step_import hcaptures hkind hname hfile hread himport hroom
  obtain ⟨later, hadd, -, hspelled⟩ :=
    @TokenStore.addText_of_lex s.store (source ++ "a") (some first) (chainText (depth + 1)) _ rfl
  rw [hadd] at hstep hnext
  refine ⟨_, next, hstep, hcaptures, himporter, hmacros, hnamespaces, s.store.size, ?_, ?_⟩
  · rw [hnext, hdrop]
    rfl
  · intro index lexeme hlexeme
    obtain ⟨-, hmade, hspelling, hnamed⟩ := hspelled index lexeme hlexeme
    refine ⟨hmade, hspelling, ?_⟩
    change (later.sourceOf (s.store.size + index)).name.length = _
    rw [hnamed, String.length_append, hsource]
    rfl

/-- A chain of imports leads to a reference that the stack has no room for. -/
theorem visits_chain :
    ∃ s pending directive opening word closing,
      Visits .standard chain "main" (chainText 0) s pending ∧
      s.Meets pending .word "w" [directive, opening, word, closing] [] ∧
      ¬ pending.HasRoom [directive, opening, word, closing] := by
  have hreach (depth : Nat) (hle : depth ≤ 255) :
      ∃ s pending, Visits .standard chain "main" (chainText 0) s pending ∧
        Chained depth s pending := by
    induction depth with
    | zero =>
        obtain ⟨later, hadd, -, hspelled⟩ :=
          @TokenStore.addText_of_lex .empty "main" none (chainText 0) _ rfl
        refine ⟨_, _, .refl, rfl, rfl, rfl, rfl, 0, ?_, ?_⟩
        · rw [TokenStore.load_eq, hadd]
          rfl
        · intro index lexeme hlexeme
          obtain ⟨-, hkind, hchars, hname⟩ := hspelled index lexeme hlexeme
          change (TokenStore.empty.load "main" (chainText 0)).2.kind _ = _ ∧
            (TokenStore.empty.load "main" (chainText 0)).2.chars _ = _ ∧
            ((TokenStore.empty.load "main" (chainText 0)).2.sourceOf _).name.length = _
          rw [TokenStore.load_eq, hadd]
          exact ⟨hkind, hchars, congrArg String.length hname⟩
    | succ depth ih =>
        obtain ⟨s, pending, hvisits, hchained⟩ := ih (Nat.le_of_succ_le hle)
        obtain ⟨after, next, hstep, hafter⟩ := hchained.step hle
        exact ⟨after, next, .step hvisits hstep, hafter⟩
  obtain ⟨s, pending, hvisits, hcaptures, -, hmacros, hnamespaces, first, hframes, htokens⟩ :=
    hreach 255 (Nat.le_refl _)
  have hlex : Lexer.lex (chainText 255) =
      [⟨.directive, 0, 6⟩, ⟨.openParen, 6, 1⟩, ⟨.word, 7, 1⟩, ⟨.closeParen, 8, 1⟩] := by
    decide +kernel
  rw [hlex] at hframes htokens
  obtain ⟨hdirective, hchars, -⟩ := htokens 0 _ rfl
  obtain ⟨hopening, -, -⟩ := htokens 1 _ rfl
  obtain ⟨hword, htext, -⟩ := htokens 2 _ rfl
  obtain ⟨hclosing, -, -⟩ := htokens 3 _ rfl
  have hname : s.store.directiveName first = "addns" := by
    rw [Nat.add_zero] at hchars
    rw [TokenStore.directiveName, hchars]
    rfl
  have htarget : s.store.text (first + 2) = "w" := by
    rw [TokenStore.text, htext]
    rfl
  have hnames : s.store.Names .word "w" [first, first + 1, first + 2, first + 3] :=
    htarget ▸ .reference ⟨hdirective, hname, hopening, hword, hclosing⟩
  have hlookup : s.lookup? (s.qualify "w") = none := by
    rw [Expansion.lookup?, List.find?_eq_none]
    intro key _
    rw [Expansion.isDefined, hmacros]
    exact Bool.false_ne_true
  have hdrop : (pending.drop 4).frames = [] :: List.replicate 255 [] :=
    @Pending.frames_drop pending [first, first + 1, first + 2, first + 3] [] _ hframes
  refine ⟨s, pending, _, _, _, _, hvisits, ⟨hcaptures, hnames, ?_, fun _ => hlookup⟩, ?_⟩
  · rw [Pending.tokens, Pending.join_eq, hframes, List.flatten_cons, List.flatten_replicate_nil]
    rfl
  · rintro (hone | hfits)
    · cases hone
    · change (pending.drop 4).frames.length < 256 at hfits
      rw [hdrop, List.length_cons, List.length_replicate] at hfits
      exact absurd hfits (by decide)

/-- A label and a reference, each written in one of its forms outside of argument lists, become one
token of the output each, a label and a word, whose text is the word behind the names of the open
namespaces; a directive that the stack has no room for makes expansion fail. In a program that is
built, a reference that has the name of a label stands for the address of that label wherever the
program takes it for a value, unless the name is a lone underscore. -/
theorem reference_resolves (config : AssemblyConfig) (importer : Importer) (name : String)
    (text : List Char) :
    (∀ {s pending kind word written more}, Visits config importer name text s pending →
      s.Meets pending kind word written more →
      (pending.HasRoom written → ∃ after next token, Expansion.Reaches s pending after next ∧
        next.tokens = more ∧ s.Puts after kind (s.qualify word) token) ∧
      (¬ pending.HasRoom written → ∃ directive later, written.head? = some directive ∧
        s.store.Extends later ∧
        Expansion.expand config importer (TokenStore.empty.load name text).2
            (TokenStore.empty.load name text).1 =
          .error (later.expansionFault directive "macro expansion nested too deeply"))) ∧
    ∀ program symbols, build config importer name text = .ok (program, symbols) →
      ∃ expanded statements layout,
        Expansion.expand config importer (TokenStore.empty.load name text).2
          (TokenStore.empty.load name text).1 = .ok (expanded, symbols.store) ∧
        symbols.store.statements expanded = .ok statements ∧
        Layout.ofStatements symbols.store config statements = .ok layout ∧
        ∀ {s pending word written more t left target listed behind},
          Visits config importer name text s pending →
          s.Meets pending .label word written more →
          Visits config importer name text t left → t.Meets left .word target listed behind →
          s.qualify word = t.qualify target → t.qualify target ≠ "_" →
          ∃ label reference address,
            expanded[s.output.size]? = some label ∧ expanded[t.output.size]? = some reference ∧
            symbols.store.kind label = .label ∧ symbols.store.kind reference = .word ∧
            symbols.store.text label = s.qualify word ∧
            symbols.store.text reference = s.qualify word ∧
            ⟨s.qualify word, address, label⟩ ∈ symbols.labels ∧
            symbols.addressOf? (s.qualify word) = some address ∧
            symbols.store.StandsFor layout reference address := by
  refine ⟨fun hvisits hmeets => ⟨hmeets.exists_puts hvisits.sound, fun hfull => ?_⟩, ?_⟩
  · rw [hvisits.expand_eq]
    exact hmeets.run_eq_error hvisits.sound hfull
  intro program symbols hbuild
  obtain ⟨statements, store, image, hparse, himage, rfl, rfl⟩ := build_eq_ok hbuild
  obtain ⟨expanded, hexpand, hread⟩ := exists_tokens_of_parse hparse
  obtain ⟨layout, pool, hplaced, -⟩ := Image.exists_laidOut himage
  refine ⟨expanded, statements, layout, hexpand, hread, hplaced, ?_⟩
  intro s pending word written more t left target listed behind hvisits hlabel hvisited hreference
    hsame hother
  obtain ⟨back, label, hexpanded, hkind, htext⟩ := hvisits.exists_token hlabel hexpand
  obtain ⟨rest, reference, hreferenced, hword, hname⟩ := hvisited.exists_token hreference hexpand
  obtain ⟨address, hmem⟩ := Image.exists_label_of_token (hexpanded ▸ hread) hkind himage
  rw [htext] at hmem
  have hfound : addressOf? layout.labels (s.qualify word) = some address := by
    rw [Layout.addressOf?_eq_some_iff hplaced, ← Image.labels_eq hplaced himage]
    exact ⟨_, hmem, rfl, rfl⟩
  rw [← hsame] at hname hother
  refine ⟨label, reference, address, ?_, ?_, hkind, hword, htext, hname, ?_, ?_, ?_⟩
  · rw [hexpanded]
    simp
  · rw [hreferenced]
    simp
  · exact (List.mergeSort_perm _ _).mem_iff.mpr hmem
  · rw [Image.labels_eq hplaced himage, Symbols.addressOf?_new hplaced]
    exact hfound
  · exact TokenStore.standsFor_of_addressOf? hplaced hword (hname ▸ hother) (hname ▸ hfound)

/-- A label and a reference in two namespaces, both made from a word with a dot. -/
def joinedText : List Char := ".ns m\n.ns n\n.label(a.b) jump .addns(a.b)".toList

/-- The reference stands for the label. Behind a chain of imports it fails. -/
theorem reference_resolves_joined :
    (∃ s pending t left program symbols layout reference address,
      Visits .standard (fun _ _ => none) "main" joinedText s pending ∧
      s.Meets pending .label "a.b" [6, 7, 8, 9] [10, 11, 12, 13, 14] ∧
      pending.HasRoom [6, 7, 8, 9] ∧
      (∃ after next token, Expansion.Reaches s pending after next ∧
        s.Puts after .label "m.n.a.b" token) ∧
      Visits .standard (fun _ _ => none) "main" joinedText t left ∧
      t.Meets left .word "a.b" [11, 12, 13, 14] [] ∧
      build .standard (fun _ _ => none) "main" joinedText = .ok (program, symbols) ∧
      symbols.store.text reference = "m.n.a.b" ∧
      symbols.addressOf? "m.n.a.b" = some address ∧
      symbols.store.StandsFor layout reference address) ∧
    ∃ directive later, Expansion.expand .standard chain
        (TokenStore.empty.load "main" (chainText 0)).2
        (TokenStore.empty.load "main" (chainText 0)).1 =
      .error (TokenStore.expansionFault later directive "macro expansion nested too deeply") := by
  let loaded := TokenStore.empty.load "main" joinedText
  let initial : Expansion := .start .standard (fun _ _ => none) loaded.2
  refine ⟨?_, ?_⟩
  · obtain ⟨s, pending, hvisits, hcaptures, hnamespaces, hframes, hlist, htext⟩ :=
      @Expansion.exists_reaches initial (.ofTokens loaded.1)
        (fun found => found.1.captures.isEmpty = true ∧ found.1.namespaces = ["n", "m"] ∧
          found.2.frames = [List.range' 6 9] ∧
          found.1.store.WordList "label" 6 7 8 9 ∧ found.1.store.text 8 = "a.b")
        inferInstance 4 (by decide +kernel)
    obtain ⟨t, left, hvisited, hnone, hinside, htokens, hreference, hname, hlookup⟩ :=
      @Expansion.exists_reaches initial (.ofTokens loaded.1)
        (fun found => found.1.captures.isEmpty = true ∧ found.1.namespaces = ["n", "m"] ∧
          found.2.tokens = [11, 12, 13, 14] ∧ found.1.store.WordList "addns" 11 12 13 14 ∧
          found.1.store.text 13 = "a.b" ∧ found.1.lookup? (found.1.qualify "a.b") = none)
        inferInstance 9 (by decide +kernel)
    have hqualified : s.qualify "a.b" = "m.n.a.b" := by
      rw [Expansion.qualify, hnamespaces]
      decide +kernel
    have hsame : t.qualify "a.b" = "m.n.a.b" := by
      rw [Expansion.qualify, hinside]
      decide +kernel
    have hmeets : s.Meets pending .label "a.b" [6, 7, 8, 9] [10, 11, 12, 13, 14] := by
      refine ⟨List.isEmpty_iff.mp hcaptures, htext ▸ .madeLabel hlist, ?_, nofun⟩
      rw [Pending.tokens, Pending.join_eq, hframes]
      rfl
    have hmet : t.Meets left .word "a.b" [11, 12, 13, 14] [] :=
      ⟨List.isEmpty_iff.mp hnone, hname ▸ .reference hreference, htokens, fun _ => hlookup⟩
    have hroom : pending.HasRoom [6, 7, 8, 9] := by
      refine .inr ?_
      rw [@Pending.frames_drop pending [6, 7, 8, 9] [10, 11, 12, 13, 14] [] hframes]
      decide
    obtain ⟨program, symbols, hbuild⟩ := @exists_build .standard (fun _ _ => none) "main" joinedText
      16 (by decide +kernel)
    obtain ⟨hputs, hresolves⟩ :=
      reference_resolves .standard (fun _ _ => none) "main" joinedText
    obtain ⟨after, next, token, hreaches, -, hput⟩ := (hputs hvisits hmeets).1 hroom
    obtain ⟨expanded, statements, layout, -, -, -, hagree⟩ := hresolves program symbols hbuild
    obtain ⟨label, reference, address, -, -, -, -, -, hreferenced, -, hfound, hstands⟩ :=
      hagree hvisits hmeets hvisited hmet (hqualified.trans hsame.symm)
        (by rw [hsame]; decide)
    rw [hqualified] at hput hreferenced hfound
    exact ⟨s, pending, t, left, program, symbols, layout, reference, address, hvisits, hmeets,
      hroom, ⟨after, next, token, hreaches, hput⟩, hvisited, hmet, hbuild, hreferenced, hfound,
      hstands⟩
  · obtain ⟨s, pending, directive, opening, word, closing, hvisits, hmeets, hfull⟩ := visits_chain
    obtain ⟨found, later, -, -, hfault⟩ :=
      ((reference_resolves .standard chain "main" (chainText 0)).1 hvisits hmeets).2 hfull
    exact ⟨found, later, hfault⟩

/-- A label and a reference with the lone underscore for their name. -/
def underscoreText : List Char := "_: jump .addns(_)".toList

/-- A reference in the argument list of another directive. -/
def nestedText : List Char := ".concat(.addns(a), b)".toList

/-- References that do not resolve. With the lone underscore for its name, the reference is read as
an operand on the stack, and the program has no reference to its label. Behind a chain of imports
there is no room for the reference, and expansion fails. In the argument list of another directive
the reference is a part of what that directive makes, and no token of its own. -/
theorem reference_unresolved :
    (∃ s pending t left store,
      Visits .standard (fun _ _ => none) "main" underscoreText s pending ∧
      s.Meets pending .label "_" [0] [1, 2, 3, 4, 5] ∧
      Visits .standard (fun _ _ => none) "main" underscoreText t left ∧
      t.Meets left .word "_" [2, 3, 4, 5] [] ∧ s.qualify "_" = t.qualify "_" ∧
      parse .standard (fun _ _ => none) "main" underscoreText =
        .ok ([.label 0, .instruction ⟨.jump, 1, none, 1, [⟨.placeholder, 6, 1⟩], []⟩], store)) ∧
    (∃ s pending directive opening word closing found later,
      Visits .standard chain "main" (chainText 0) s pending ∧
      s.Meets pending .word "w" [directive, opening, word, closing] [] ∧
      Expansion.expand .standard chain (TokenStore.empty.load "main" (chainText 0)).2
          (TokenStore.empty.load "main" (chainText 0)).1 =
        .error (TokenStore.expansionFault later found "macro expansion nested too deeply")) ∧
    ∃ s pending expanded store, Visits .standard (fun _ _ => none) "main" nestedText s pending ∧
      s.store.Names .word "a" [2, 3, 4, 5] ∧ pending.tokens = [2, 3, 4, 5, 6, 7, 8] ∧
      s.lookup? (s.qualify "a") = none ∧
      Expansion.expand .standard (fun _ _ => none) (TokenStore.empty.load "main" nestedText).2
          (TokenStore.empty.load "main" nestedText).1 = .ok (expanded, store) ∧
      expanded.map store.text = ["ab"] := by
  refine ⟨?_, ?_, ?_⟩
  · let loaded := TokenStore.empty.load "main" underscoreText
    let initial : Expansion := .start .standard (fun _ _ => none) loaded.2
    have hlabel : initial.Meets (.ofTokens loaded.1) .label "_" [0] [1, 2, 3, 4, 5] := by
      have hkind : initial.store.kind 0 = .label := by decide +kernel
      have htext : initial.store.text 0 = "_" := by decide +kernel
      exact ⟨rfl, htext ▸ .label hkind, by decide +kernel, nofun⟩
    obtain ⟨t, left, hvisited, hnone, houtside, htokens, hlist, hname, hlookup⟩ :=
      @Expansion.exists_reaches initial (.ofTokens loaded.1)
        (fun found => found.1.captures.isEmpty = true ∧ found.1.namespaces = [] ∧
          found.2.tokens = [2, 3, 4, 5] ∧ found.1.store.WordList "addns" 2 3 4 5 ∧
          found.1.store.text 4 = "_" ∧ found.1.lookup? (found.1.qualify "_") = none)
        inferInstance 2 (by decide +kernel)
    have hmet : t.Meets left .word "_" [2, 3, 4, 5] [] :=
      ⟨List.isEmpty_iff.mp hnone, hname ▸ .reference hlist, htokens, fun _ => hlookup⟩
    have hruns : (Expansion.runWithin? 8 initial (.ofTokens loaded.1)).bind (fun answer =>
        answer.toOption.map fun expanded => (expanded.2.statements expanded.1).toOption) =
        some (some [.label 0, .instruction ⟨.jump, 1, none, 1, [⟨.placeholder, 6, 1⟩], []⟩]) := by
      decide +kernel
    obtain ⟨⟨expanded, store⟩, hexpand, hread⟩ := Expansion.exists_answer hruns
    have hstatements := toOption_eq_some.mp hread
    exact ⟨initial, .ofTokens loaded.1, t, left, store, .refl, hlabel, hvisited, hmet,
      congrArg (Expansion.qualifyIn · "_") houtside.symm,
      bind_eq_ok.mpr ⟨_, hexpand, bind_eq_ok.mpr ⟨_, hstatements, rfl⟩⟩⟩
  · obtain ⟨s, pending, directive, opening, word, closing, hvisits, hmeets, hfull⟩ := visits_chain
    obtain ⟨found, later, -, -, hfault⟩ := hmeets.run_eq_error hvisits.sound hfull
    exact ⟨s, pending, directive, opening, word, closing, found, later, hvisits, hmeets,
      hvisits.expand_eq.trans hfault⟩
  · let loaded := TokenStore.empty.load "main" nestedText
    let initial : Expansion := .start .standard (fun _ _ => none) loaded.2
    obtain ⟨s, pending, hvisits, htokens, hlist, hname, hlookup⟩ :=
      @Expansion.exists_reaches initial (.ofTokens loaded.1)
        (fun found => found.2.tokens = [2, 3, 4, 5, 6, 7, 8] ∧
          found.1.store.WordList "addns" 2 3 4 5 ∧ found.1.store.text 4 = "a" ∧
          found.1.lookup? (found.1.qualify "a") = none)
        inferInstance 1 (by decide +kernel)
    have hruns : (Expansion.runWithin? 16 initial (.ofTokens loaded.1)).bind (fun answer =>
        answer.toOption.map fun found => found.1.map found.2.text) = some ["ab"] := by
      decide +kernel
    obtain ⟨⟨expanded, store⟩, hexpand, hexpanded⟩ := Expansion.exists_answer hruns
    exact ⟨s, pending, expanded, store, hvisits, hname ▸ .reference hlist, htokens, hlookup,
      hexpand, hexpanded⟩

end Assembly

end VectorStack
