import Mathlib.Data.List.Forall2
import VectorStack.Assembly.Macro
/-!
The text of a macro with arguments in place of parameters. What stands for a token of the text is
told by a relation; with as many arguments as the macro asks for, every token has exactly one list
of tokens that stands for it, and the text with arguments is made of these.
-/

namespace VectorStack

namespace Macro

variable {definition : Macro} {store : TokenStore} {arguments : List (List TokenId)}
  {token : TokenId}

/-- How many commas separate arguments; behind them everything goes to the rest parameter. -/
def limit (definition : Macro) : Option Nat := definition.rest.map fun _ => definition.params.length

/-- The macro cannot be used with this many arguments. -/
def Refuses (definition : Macro) (given : Nat) : Prop :=
  given < definition.params.length ∨ definition.params.length < given ∧ definition.rest = none

instance (definition : Macro) (given : Nat) : Decidable (definition.Refuses given) :=
  inferInstanceAs (Decidable (_ ∨ _ ∧ _))

/-- What stands for a token of the macro's text: the argument for the first parameter of its name,
or the arguments beyond the parameters, or the token itself. -/
inductive Stands (definition : Macro) (store : TokenStore) (arguments : List (List TokenId))
    (token : TokenId) : List TokenId → Prop
  | parameter {index : Nat} {argument : List TokenId} (hkind : store.kind token = .word)
      (hparam : definition.params[index]? = some (store.text token))
      (hfirst : store.text token ∉ definition.params.take index)
      (hargument : arguments[index]? = some argument) :
    Stands definition store arguments token argument
  | rest (hkind : store.kind token = .word) (hparam : store.text token ∉ definition.params)
      (hrest : definition.rest = some (store.text token)) :
    Stands definition store arguments token (arguments[definition.params.length]?.getD [])
  | other (hother : store.kind token = .word →
      store.text token ∉ definition.params ∧ definition.rest ≠ some (store.text token)) :
    Stands definition store arguments token [token]

theorem accepts_eq_true_iff (definition : Macro) (given : Nat) :
    definition.accepts given = true ↔ ¬ definition.Refuses given := by
  simp only [accepts, Refuses, Bool.and_eq_true, Bool.or_eq_true, decide_eq_true_eq,
    Option.isSome_iff_ne_none, not_or, not_and, Nat.not_lt, ne_eq]
  refine and_congr_right fun _ => ⟨fun hgiven hmore => ?_, fun hgiven => ?_⟩
  · exact hgiven.resolve_left (Nat.not_le.mpr hmore)
  · rcases Nat.lt_or_ge definition.params.length given with hmore | hle
    · exact .inr (hgiven hmore)
    · exact .inl hle

theorem findIdx?_eq_none_iff {name : String} :
    definition.params.findIdx? (· == name) = none ↔ name ∉ definition.params := by
  rw [List.findIdx?_eq_none_iff]
  constructor
  · intro hnone hmem
    exact Bool.false_ne_true ((hnone name hmem).symm.trans (beq_self_eq_true name))
  · intro hparam _ hmem
    exact beq_false_of_ne fun hsame => hparam (hsame ▸ hmem)

/-- With enough arguments every parameter has one. -/
theorem stands_substitute (henough : definition.params.length ≤ arguments.length)
    (token : TokenId) :
    definition.Stands store arguments token (definition.substitute store arguments token) := by
  unfold substitute
  by_cases hkind : store.kind token = .word
  · rw [if_pos hkind]
    dsimp only
    split
    · next index hfound =>
        obtain ⟨hindex, hname, hearlier⟩ := List.findIdx?_eq_some_iff_getElem.mp hfound
        have hlt : index < arguments.length := Nat.lt_of_lt_of_le hindex henough
        rw [List.getD_eq_getElem?_getD, List.getElem?_eq_getElem hlt]
        refine .parameter hkind ?_ ?_ (List.getElem?_eq_getElem hlt)
        · rw [List.getElem?_eq_getElem hindex, beq_iff_eq.mp hname]
        · intro hmem
          obtain ⟨earlier, hbefore, hsame⟩ := List.mem_take_iff_getElem.mp hmem
          exact hearlier earlier (by omega) (beq_iff_eq.mpr hsame)
    · next hnone =>
        have hparam := findIdx?_eq_none_iff.mp hnone
        split
        · next hrest =>
            rw [List.getD_eq_getElem?_getD]
            exact .rest hkind hparam hrest
        · next hrest => exact .other fun _ => ⟨hparam, hrest⟩
  · rw [if_neg hkind]
    exact .other fun hword => absurd hword hkind

theorem substitute_subset (definition : Macro) (store : TokenStore)
    (arguments : List (List TokenId)) (token : TokenId) :
    definition.substitute store arguments token ⊆ token :: arguments.flatten := by
  have hargument (index : Nat) : arguments.getD index [] ⊆ token :: arguments.flatten := by
    intro id hmem
    rw [List.getD_eq_getElem?_getD] at hmem
    cases hfound : arguments[index]? with
    | none =>
        rw [hfound] at hmem
        cases hmem
    | some argument =>
        rw [hfound] at hmem
        have hlisted := List.mem_of_getElem? hfound
        exact List.mem_cons_of_mem token (List.mem_flatten.mpr ⟨argument, hlisted, hmem⟩)
  have hself : [token] ⊆ token :: arguments.flatten :=
    List.cons_subset_cons token (List.nil_subset _)
  unfold substitute
  dsimp only
  split
  · split
    · exact hargument _
    · split
      · exact hargument _
      · exact hself
  · exact hself

/-- The text of a macro is made of its body and of its arguments. -/
theorem instantiate_subset (definition : Macro) (store : TokenStore)
    (arguments : List (List TokenId)) :
    definition.instantiate store arguments ⊆ definition.body ++ arguments.flatten := by
  intro id hmem
  obtain ⟨token, htoken, hid⟩ := List.mem_flatMap.mp hmem
  rcases List.mem_cons.mp (definition.substitute_subset store arguments token hid) with rfl | hid
  · exact List.mem_append_left _ htoken
  · exact List.mem_append_right _ hid

theorem Stands.eq_substitute {piece : List TokenId}
    (hstands : definition.Stands store arguments token piece) :
    piece = definition.substitute store arguments token := by
  unfold substitute
  cases hstands with
  | @parameter index _ hkind hparam hfirst hargument =>
      obtain ⟨hindex, hname⟩ := List.getElem?_eq_some_iff.mp hparam
      have hfound : definition.params.findIdx? (· == store.text token) = some index := by
        refine List.findIdx?_eq_some_iff_getElem.mpr ⟨hindex, beq_iff_eq.mpr hname, ?_⟩
        intro earlier hbefore hsame
        exact hfirst (List.mem_take_iff_getElem.mpr
          ⟨earlier, by omega, beq_iff_eq.mp hsame⟩)
      rw [if_pos hkind]
      dsimp only
      rw [hfound]
      dsimp only
      rw [List.getD_eq_getElem?_getD, hargument, Option.getD_some]
  | rest hkind hparam hrest =>
      rw [if_pos hkind]
      dsimp only
      rw [findIdx?_eq_none_iff.mpr hparam, if_pos hrest, List.getD_eq_getElem?_getD]
  | other hother =>
      by_cases hkind : store.kind token = .word
      · obtain ⟨hparam, hrest⟩ := hother hkind
        rw [if_pos hkind]
        dsimp only
        rw [findIdx?_eq_none_iff.mpr hparam, if_neg hrest]
      · rw [if_neg hkind]

/-- With enough arguments, what stands for the tokens of the macro's text is its text with
arguments. -/
theorem forall₂_stands_iff (henough : definition.params.length ≤ arguments.length)
    {body : List TokenId} {pieces : List (List TokenId)} :
    List.Forall₂ (definition.Stands store arguments) body pieces ↔
      pieces = body.map (definition.substitute store arguments) := by
  constructor
  · intro hstands
    induction hstands with
    | nil => rfl
    | cons hpiece _ ih => rw [hpiece.eq_substitute, ih, List.map_cons]
  · rintro rfl
    induction body with
    | nil => exact .nil
    | cons token rest ih => exact .cons (stands_substitute henough token) ih

end Macro

end VectorStack
