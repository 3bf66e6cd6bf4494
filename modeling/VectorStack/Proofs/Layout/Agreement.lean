import VectorStack.Proofs.Layout.Placement
import VectorStack.Proofs.Statement
/-!
Placing statements and writing them agree. The size that a statement is placed with is the number of
bytes that are written for it, so every label and every entry stands where the statements before it
put it, and no label is ever found to have moved.
-/

namespace VectorStack

variable {store : TokenStore} {config : AssemblyConfig}

/-- The numbers that the lanes of an operand stand for: one, or one for every byte of a text, which
its length may come before. -/
inductive Layout.Lanes (layout : Layout) (store : TokenStore) (term : Term) (lengthFirst : Bool) :
    List Number → Prop
  | text {token : TokenId} {text : Bytes} (hwritten : term.written = .string token)
      (htext : store.stringBytes token = .ok text) :
      Lanes layout store term lengthFirst
        ((if lengthFirst then [.ofNat text.length] else []) ++
          text.map fun byte => .ofNat byte.toNat)
  | single {number : Number} (hwritten : ¬ term.IsText)
      (hnumber : layout.termNumber store term = .ok number) :
      Lanes layout store term lengthFirst [number]

theorem Layout.lanes_of_encodeTerm {layout : Layout} {type : DataType} {term : Term}
    {lengthFirst : Bool} {once : Bytes}
    (hencode : layout.encodeTerm store type term lengthFirst = .ok once) :
    ∃ numbers, layout.Lanes store term lengthFirst numbers ∧
      once = numbers.flatMap fun number => type.encodeLane (number.toCell type.mode) := by
  rw [encodeTerm] at hencode
  dsimp only at hencode
  split at hencode
  · next token hwritten =>
      obtain ⟨text, htext, hencode⟩ := bind_eq_ok.mp hencode
      cases hencode
      refine ⟨_, .text hwritten htext, ?_⟩
      cases lengthFirst <;> rfl
  · next hwritten =>
      obtain ⟨number, hnumber, hencode⟩ := bind_eq_ok.mp hencode
      cases hencode
      exact ⟨_, .single (fun ⟨token, htoken⟩ => hwritten token htoken) hnumber, rfl⟩

theorem DataType.length_flatMap_encodeLane (type : DataType) (numbers : List Number) :
    (numbers.flatMap fun number => type.encodeLane (number.toCell type.mode)).length =
      numbers.length * type.size := by
  induction numbers with
  | nil => simp
  | cons number rest ih => simp [ih, Nat.add_mul, Nat.add_comm]

theorem Layout.length_encodeTerm {layout : Layout} {type : DataType} {term : Term} {once : Bytes}
    (hencode : layout.encodeTerm store type term false = .ok once) :
    store.dataSize type term = .ok (once.length * term.copies) := by
  obtain ⟨numbers, hlanes, rfl⟩ := lanes_of_encodeTerm hencode
  rw [DataType.length_flatMap_encodeLane, TokenStore.dataSize]
  cases hlanes with
  | text hwritten htext => simp [hwritten, htext, bind, Except.bind, Except.map]
  | single hwritten =>
      split
      · next token htoken => exact absurd ⟨token, htoken⟩ hwritten
      · rfl

theorem Image.operandAddress_isSome {layout : Layout} {pool : ConstantPool}
    {addressing : Addressing} {address : Option Nat}
    (haddress : operandAddress layout store pool addressing = .ok address) :
    address.isSome = Layout.takesAddress addressing := by
  cases addressing with
  | stack =>
      cases haddress
      rfl
  | inlined term =>
      obtain ⟨number, -, haddress⟩ := bind_eq_ok.mp haddress
      obtain ⟨found, -, rfl⟩ := map_eq_ok.mp haddress
      rfl
  | direct label =>
      rw [operandAddress] at haddress
      split at haddress
      · cases haddress
        rfl
      · cases haddress
  | offset expression =>
      obtain ⟨number, -, haddress⟩ := bind_eq_ok.mp haddress
      obtain ⟨found, -, rfl⟩ := map_eq_ok.mp haddress
      rfl
  | pooled request =>
      cases haddress
      rfl

theorem Image.length_operandBytes {layout : Layout} {pool : ConstantPool}
    {operands : List Addressing} {bytes : Bytes}
    (hbytes : operandBytes layout store pool operands = .ok bytes) :
    bytes.length = operands.countP Layout.takesAddress * Address.byteCount := by
  induction operands generalizing bytes with
  | nil =>
      cases hbytes
      rfl
  | cons addressing rest ih =>
      obtain ⟨address, haddress, hbytes⟩ := bind_eq_ok.mp hbytes
      obtain ⟨others, hothers, hbytes⟩ := bind_eq_ok.mp hbytes
      cases hbytes
      rw [List.length_append, ih hothers, List.countP_cons, ← operandAddress_isSome haddress]
      cases address with
      | none => simp
      | some address => simp [Nat.add_mul, Nat.add_comm]

theorem Layout.Planned.size_eq {statement : InstructionStatement}
    {requests after : Array PoolRequest} {word : Instruction}
    {planned : List (DataType × Addressing)}
    (hplanned : Planned store config statement requests word planned after) :
    word.size = Instruction.wordBytes +
      (planned.map Prod.snd).countP takesAddress * Address.byteCount := by
  rw [hplanned.word_eq, Instruction.size, wordFor, List.countP_map]
  rfl

/-- What is written for one statement that is placed at a cursor: the labels it defines, the entries
it becomes and where the next statement goes. -/
inductive Emits (store : TokenStore) (config : AssemblyConfig) (layout : Layout)
    (pool : ConstantPool) (cursor : Nat) : Statement → List Label → List Entry → Nat → Prop
  | label {token : TokenId} :
      Emits store config layout pool cursor (.label token) [⟨store.text token, cursor, token⟩] []
        cursor
  | position {token : TokenId} {number : Nat}
      (hnumber : (Number.parse? ((store.chars token).drop 1)).bind Number.natural? = some number) :
      Emits store config layout pool cursor (.position token) [] [] (Address.wrap number)
  | data {type : DataType} {item : Term} {once : Bytes}
      (hencode : layout.encodeTerm store type item false = .ok once)
      (hsize : store.dataSize type item = .ok (once.length * item.copies))
      (hlength : 0 < once.length * item.copies) :
      Emits store config layout pool cursor (.data type item) []
        [⟨cursor, ⟨once, item.copies⟩, item.token, some type⟩]
        (Address.wrap (cursor + once.length * item.copies))
  | nothing {type : DataType} {item : Term} {once : Bytes}
      (hencode : layout.encodeTerm store type item false = .ok once)
      (hsize : store.dataSize type item = .ok 0)
      (hlength : once.length * item.copies = 0) :
      Emits store config layout pool cursor (.data type item) [] [] (Address.wrap cursor)
  | instruction {statement : InstructionStatement} {before after : Array PoolRequest}
      {word : Instruction} {operands : List Addressing} {addresses : Bytes}
      (hplan : Layout.plan store config before statement = .ok (word, operands, after))
      (hrequests : after.toList <+: layout.requests.toList)
      (haddresses : Image.operandBytes layout store pool operands = .ok addresses)
      (hsize : (ByteRun.single
        (Bytes.ofNat Instruction.wordBytes word.encode.toNat ++ addresses)).length = word.size) :
      Emits store config layout pool cursor (.instruction statement) []
        [⟨cursor, .single (Bytes.ofNat Instruction.wordBytes word.encode.toNat ++ addresses),
          statement.token, none⟩]
        (Address.wrap (cursor + word.size))

/-- The reference layout. Statements from a cursor on are written one behind the other: a label
stands at the cursor, a position sets it, and data and instructions move it behind the bytes that
are written for them. -/
inductive LaidOut (store : TokenStore) (config : AssemblyConfig) (layout : Layout)
    (pool : ConstantPool) : Nat → List Statement → List Label → List Entry → Nat → Prop
  | nil (cursor : Nat) : LaidOut store config layout pool cursor [] [] [] cursor
  | cons {cursor next stop : Nat} {statement : Statement} {rest : List Statement}
      {labels others : List Label} {entries later : List Entry}
      (hhead : Emits store config layout pool cursor statement labels entries next)
      (htail : LaidOut store config layout pool next rest others later stop) :
      LaidOut store config layout pool cursor (statement :: rest) (labels ++ others)
        (entries ++ later) stop

/-- The addresses of an entry. -/
def Entry.span (entry : Entry) : Span := ⟨entry.address, entry.length⟩

namespace Layout

variable {pool : ConstantPool} {layout next last final : Layout} {statement : Statement}
  {lowered : Lowered} {statements : List Statement} {more rows : List Lowered}
  {entries : List Entry}

/-- A label that is new where it is placed is found there by everything placed later. -/
theorem checkLabel_of_new {token : TokenId} {placed : Array Lowered}
    (hnew : addressOf? layout.labels (store.text token) = none)
    (hextends : Extends { layout with
      labels := layout.labels.push ⟨store.text token, layout.cursor, token⟩
      lowered := placed } final) :
    Image.checkLabel final store layout.cursor token = .ok () := by
  have hplaced : addressOf? final.labels (store.text token) = some layout.cursor := by
    apply hextends.addressOf?_eq_some
    rw [addressOf?_push, hnew]
    simp
  simp [Image.checkLabel, hplaced]

/-- An instruction is placed with the size of the bytes that are written for it. -/
theorem size_eq_of_plan {statement : InstructionStatement} {requests after : Array PoolRequest}
    {word : Instruction} {operands : List Addressing} {addresses : Bytes}
    (hplan : plan store config requests statement = .ok (word, operands, after))
    (haddresses : Image.operandBytes final store pool operands = .ok addresses) :
    (ByteRun.single (Bytes.ofNat Instruction.wordBytes word.encode.toNat ++ addresses)).length =
      word.size := by
  obtain ⟨planned, rfl, hplanned⟩ := planned_of_plan hplan
  rw [ByteRun.length, ByteRun.single, Nat.mul_one, List.length_append, Bytes.length_ofNat,
    Image.length_operandBytes haddresses, hplanned.size_eq]

/-- Writing a statement keeps in step with placing it. -/
theorem Places.emits (hplaces : Places store config layout statement lowered next)
    (hnext : next.Extends final)
    (hwrite : Image.write final store pool layout.cursor (lowered :: more) = .ok entries) :
    ∃ labels written later, entries = written ++ later ∧
      next.labels.toList = layout.labels.toList ++ labels ∧
      Emits store config final pool layout.cursor statement labels written next.cursor ∧
      (∀ entry ∈ written, entry.span = ⟨layout.cursor, lowered.length store⟩) ∧
      Image.write final store pool next.cursor more = .ok later := by
  have hnone : ∀ entry ∈ ([] : List Entry), entry.span = ⟨layout.cursor, lowered.length store⟩ := by
    intro entry hmem
    cases hmem
  cases hplaces with
  | @label token hnew =>
      rw [Image.write, checkLabel_of_new hnew hnext] at hwrite
      exact ⟨_, [], entries, rfl, Array.toList_push, .label, hnone, hwrite⟩
  | @position token address haddress =>
      obtain ⟨number, hnumber, rfl⟩ := TokenStore.exists_positionNumber haddress
      exact ⟨[], [], entries, rfl, (List.append_nil _).symm, .position hnumber, hnone, hwrite⟩
  | @data type item size hsize =>
      obtain ⟨content, hcontent, hwrite⟩ := bind_eq_ok.mp hwrite
      obtain ⟨once, hencode, hcontent⟩ := bind_eq_ok.mp hcontent
      cases hcontent
      obtain ⟨others, hothers, hwrite⟩ := bind_eq_ok.mp hwrite
      cases hwrite
      have hsame : size = once.length * item.copies := by
        rw [length_encodeTerm hencode] at hsize
        exact (Except.ok.inj hsize).symm
      subst hsame
      by_cases hempty : once.length * item.copies = 0
      · refine ⟨[], [], others, ?_, (List.append_nil _).symm, ?_, hnone, hothers⟩
        · simp [ByteRun.length, hempty]
        · rw [hempty] at hsize
          have hstay : Address.wrap (layout.cursor + once.length * item.copies) =
              Address.wrap layout.cursor := by rw [hempty, Nat.add_zero]
          simp only [occupy, hstay]
          exact .nothing hencode hsize hempty
      · refine ⟨[], [⟨layout.cursor, ⟨once, item.copies⟩, item.token, some type⟩], others, ?_,
          (List.append_nil _).symm, .data hencode hsize (Nat.pos_of_ne_zero hempty), ?_, hothers⟩
        · simp [ByteRun.length, hempty]
        · intro entry hmem
          cases List.mem_singleton.mp hmem
          rw [Lowered.length, hsize]
          rfl
  | @instruction statement word operands requests hplan =>
      obtain ⟨content, hcontent, hwrite⟩ := bind_eq_ok.mp hwrite
      obtain ⟨addresses, haddresses, hcontent⟩ := bind_eq_ok.mp hcontent
      cases hcontent
      obtain ⟨others, hothers, hwrite⟩ := bind_eq_ok.mp hwrite
      cases hwrite
      have hsize := size_eq_of_plan hplan haddresses
      have hpos : word.size ≠ 0 := by
        rw [Instruction.size, Instruction.wordBytes]
        omega
      rw [hsize] at hothers
      refine ⟨[], [⟨layout.cursor, .single _, statement.token, none⟩], others, ?_,
        (List.append_nil _).symm,
        .instruction hplan hnext.requests_isPrefix haddresses hsize, ?_, hothers⟩
      · rw [hsize, if_neg hpos]
        rfl
      · intro entry hmem
        cases List.mem_singleton.mp hmem
        rw [Lowered.length, ← hsize]
        rfl

/-- Writing statements that were placed in a run lays them out as the reference does. -/
theorem Run.laidOut (hrun : Run store config layout statements rows last)
    (hlast : last.Extends final)
    (hwrite : Image.write final store pool layout.cursor (rows ++ more) = .ok entries) :
    ∃ labels earlier later, entries = earlier ++ later ∧
      last.labels.toList = layout.labels.toList ++ labels ∧
      LaidOut store config final pool layout.cursor statements labels earlier last.cursor ∧
      Image.write final store pool last.cursor more = .ok later := by
  induction hrun generalizing entries with
  | nil layout => exact ⟨[], [], entries, rfl, (List.append_nil _).symm, .nil _, hwrite⟩
  | cons hhead htail ih =>
      obtain ⟨labels, written, others, rfl, hlabels, hemits, -, hothers⟩ :=
        hhead.emits (htail.extends_last.trans hlast) hwrite
      obtain ⟨moreLabels, earlier, later, rfl, hmoreLabels, hlaidOut, hlater⟩ :=
        ih hlast hothers
      refine ⟨labels ++ moreLabels, written ++ earlier, later, ?_, ?_, .cons hemits hlaidOut,
        hlater⟩
      · rw [List.append_assoc]
      · rw [hmoreLabels, hlabels, List.append_assoc]

/-- What is written takes addresses that its statement needs. -/
theorem Run.span_mem (hrun : Run store config layout statements rows last)
    (hlast : last.Extends final) (hcursor : layout.cursor < Address.space)
    (hwrite : Image.write final store pool layout.cursor rows = .ok entries) :
    ∀ entry ∈ entries, entry.span ∈ spans store layout.cursor rows := by
  induction hrun generalizing entries with
  | nil =>
      cases hwrite
      exact fun _ hmem => absurd hmem List.not_mem_nil
  | cons hhead htail ih =>
      obtain ⟨labels, written, later, rfl, -, -, hwritten, hlater⟩ :=
        hhead.emits (htail.extends_last.trans hlast) hwrite
      intro entry hmem
      rcases List.mem_append.mp hmem with hnow | hafter
      · rw [hwritten entry hnow]
        exact List.mem_cons_self
      · have hspan := ih hlast (hhead.cursor_lt hcursor) hlater entry hafter
        rw [hhead.cursor_eq hcursor] at hspan
        exact List.mem_cons_of_mem _ hspan

end Layout

/-- What is written for a list of statements is written for its first part and then for its
second. -/
theorem LaidOut.split {layout : Layout} {pool : ConstantPool} {cursor stop : Nat}
    {before after : List Statement} {labels : List Label} {entries : List Entry}
    (hlaidOut : LaidOut store config layout pool cursor (before ++ after) labels entries stop) :
    ∃ first second earlier later middle, labels = first ++ second ∧ entries = earlier ++ later ∧
      LaidOut store config layout pool cursor before first earlier middle ∧
      LaidOut store config layout pool middle after second later stop := by
  induction before generalizing cursor labels entries with
  | nil => exact ⟨[], labels, [], entries, cursor, rfl, rfl, .nil cursor, hlaidOut⟩
  | cons statement rest ih =>
      cases hlaidOut with
      | cons hhead htail =>
          obtain ⟨first, second, earlier, later, middle, rfl, rfl, hfirst, hsecond⟩ := ih htail
          refine ⟨_, second, _, later, middle, ?_, ?_, .cons hhead hfirst, hsecond⟩
          · rw [List.append_assoc]
          · rw [List.append_assoc]

/-- An instruction among the statements is one entry, where the statements before it end. -/
theorem LaidOut.exists_instruction {layout : Layout} {pool : ConstantPool} {cursor stop : Nat}
    {before after : List Statement} {statement : InstructionStatement} {labels : List Label}
    {entries : List Entry}
    (hlaidOut : LaidOut store config layout pool cursor (before ++ .instruction statement :: after)
      labels entries stop) :
    ∃ first earlier entry later next, entries = earlier ++ entry :: later ∧
      LaidOut store config layout pool cursor before first earlier entry.address ∧
      entry.token = statement.token ∧
      Emits store config layout pool entry.address (.instruction statement) [] [entry] next := by
  obtain ⟨first, _, earlier, _, place, -, rfl, hbefore, hrest⟩ := hlaidOut.split
  cases hrest with
  | cons hhead _ =>
      cases hhead with
      | instruction hplan hrequests haddresses hsize =>
          exact ⟨first, earlier, _, _, _, rfl, hbefore, rfl,
            .instruction hplan hrequests haddresses hsize⟩

namespace Image

/-- Everything that was emitted stands where the reference layout puts it. -/
theorem exists_laidOut {statements : List Statement} {image : Image}
    (himage : ofStatements store config statements = .ok image) :
    ∃ layout pool, Layout.ofStatements store config statements = .ok layout ∧
      ConstantPool.ofLayout layout store config = .ok pool ∧
      image.program = assemble image.entries pool ∧
      LaidOut store config layout pool 0 statements image.labels image.entries layout.cursor := by
  obtain ⟨layout, hlayout, himage⟩ := bind_eq_ok.mp himage
  obtain ⟨pool, hpool, himage⟩ := bind_eq_ok.mp himage
  obtain ⟨entries, hwrite, himage⟩ := bind_eq_ok.mp himage
  cases himage
  have hrun := Layout.run_of_ofStatements hlayout
  rw [← List.append_nil layout.lowered.toList] at hwrite
  obtain ⟨labels, earlier, later, rfl, hlabels, hlaidOut, hlater⟩ :=
    hrun.laidOut (Layout.Extends.refl layout) hwrite
  cases hlater
  have hall : layout.labels.toList = labels := hlabels
  refine ⟨layout, pool, hlayout, hpool, rfl, ?_⟩
  dsimp only
  rw [List.append_nil, hall]
  exact hlaidOut

end Image

end VectorStack
