import Mathlib.Data.List.Basic

/-!
# Texts that can be read in one way only

Two texts that are put together from pieces are equal only if their pieces are, provided that the
end of every piece can be seen. Two ways of seeing it are enough here, for characters and for tokens
alike:

* a piece made of one sort of symbol ends at the first symbol of another sort
  (`append_cons_inj_of_sort`);
* a list of pieces ends where no further piece can start (`Readable.flatMap_append_inj`).
-/

namespace WireSchema.SelfDelimiting

variable {α β : Type}

/-- **A run of one sort ends at the first symbol of another sort.** -/
theorem append_cons_inj_of_sort (p : β → Prop) {xs ys r r' : List β} {d d' : β}
    (hxs : ∀ x ∈ xs, p x) (hys : ∀ y ∈ ys, p y) (hd : ¬ p d) (hd' : ¬ p d')
    (h : xs ++ d :: r = ys ++ d' :: r') : xs = ys ∧ d = d' ∧ r = r' := by
  induction xs generalizing ys with
  | nil =>
    cases ys with
    | nil =>
      obtain ⟨hhead, htail⟩ := List.cons.inj h
      exact ⟨rfl, hhead, htail⟩
    | cons y ys =>
      obtain ⟨rfl, -⟩ := List.cons.inj h
      exact absurd (hys d (List.mem_cons_self ..)) hd
  | cons x xs ih =>
    cases ys with
    | nil =>
      obtain ⟨rfl, -⟩ := List.cons.inj h
      exact absurd (hxs x (List.mem_cons_self ..)) hd'
    | cons y ys =>
      obtain ⟨rfl, htail⟩ := List.cons.inj h
      obtain ⟨rfl, hrest⟩ := ih (fun z hz => hxs z (List.mem_cons_of_mem _ hz))
        (fun z hz => hys z (List.mem_cons_of_mem _ hz)) htail
      exact ⟨rfl, hrest⟩

/-- The items that satisfy `P` are written by `code` so that each can be read back off the front of
a text, as long as what follows it satisfies `Rest`; a text that starts with an item does. -/
structure Readable (P : α → Prop) (Rest : List β → Prop) (code : α → List β) : Prop where
  inj : ∀ {a b t t'}, P a → P b → Rest t → Rest t' → code a ++ t = code b ++ t' → a = b ∧ t = t'
  rest : ∀ {a} t, P a → Rest (code a ++ t)

/-- The text `r` may follow a list of items and starts with no further one. -/
structure Ends (P : α → Prop) (Rest : List β → Prop) (code : α → List β) (r : List β) : Prop where
  rest : Rest r
  ne : ∀ {a t}, P a → r ≠ code a ++ t

variable {P : α → Prop} {Rest : List β → Prop} {code : α → List β}

theorem Readable.rest_flatMap (h : Readable P Rest code) {as : List α} (has : ∀ a ∈ as, P a)
    {r : List β} (hr : Rest r) : Rest (as.flatMap code ++ r) := by
  cases as with
  | nil => exact hr
  | cons a as =>
    rw [List.flatMap_cons, List.append_assoc]
    exact h.rest _ (has a (List.mem_cons_self ..))

/-- **A list of items ends where no further item can start.** -/
theorem Readable.flatMap_append_inj (h : Readable P Rest code) {as bs : List α} {r r' : List β}
    (has : ∀ a ∈ as, P a) (hbs : ∀ b ∈ bs, P b) (hr : Ends P Rest code r)
    (hr' : Ends P Rest code r') (heq : as.flatMap code ++ r = bs.flatMap code ++ r') :
    as = bs ∧ r = r' := by
  induction as generalizing bs with
  | nil =>
    cases bs with
    | nil => exact ⟨rfl, heq⟩
    | cons b bs =>
      rw [List.flatMap_cons, List.append_assoc] at heq
      exact absurd heq (hr.ne (hbs b (List.mem_cons_self ..)))
  | cons a as ih =>
    obtain ⟨ha, has'⟩ := List.forall_mem_cons.mp has
    cases bs with
    | nil =>
      rw [List.flatMap_cons, List.append_assoc] at heq
      exact absurd heq.symm (hr'.ne ha)
    | cons b bs =>
      obtain ⟨hb, hbs'⟩ := List.forall_mem_cons.mp hbs
      rw [List.flatMap_cons, List.flatMap_cons, List.append_assoc, List.append_assoc] at heq
      obtain ⟨rfl, htail⟩ :=
        h.inj ha hb (h.rest_flatMap has' hr.rest) (h.rest_flatMap hbs' hr'.rest) heq
      obtain ⟨rfl, hrest⟩ := ih has' hbs' htail
      exact ⟨rfl, hrest⟩

end WireSchema.SelfDelimiting
