import Mathlib.Data.List.Nodup
import WireSchema.Proofs.ParserCorrect
import WireSchema.Proofs.Validity
import WireSchema.Schema.Compile

/-!
# What an accepted schema is like

Two facts about every schema that comes from a text, whatever the mode:

* all its names are words (`Schema.ofText_worded`), since they are spelled by identifiers;
* no two enums and no two messages have the same name, no two variants of an enum the same value and
  no two fields of a message the same tag (`Schema.ofText_distinct`).
-/

namespace WireSchema

open Text (isWord)

/-! ## Words -/

/-- The names in a declaration are words. -/
def Written.Declaration.Worded : Written.Declaration → Prop
  | .name n => isWord n.name = true
  | .constant c => isWord c.name = true
  | .enum e => isWord e.name = true ∧ ∀ v ∈ e.variants, isWord v.label = true
  | .message m => isWord m.name = true ∧ ∀ f ∈ m.fields, isWord f.name = true

namespace Grammar

theorem Identifier.isWord_text (i : Identifier) (h : i.val.Lexical) : isWord i.val.text = true :=
  h.word (of_decide_eq_true i.property)

theorem Block.name_mem {Item : Type} {itemTokens : Item → List Token} (b : Block Item) :
    b.name.val ∈ b.tokens itemTokens :=
  List.mem_cons_self

theorem Block.item_mem {Item : Type} {itemTokens : Item → List Token} {b : Block Item} {i : Item}
    (hi : i ∈ b.items) {t : Token} (ht : t ∈ itemTokens i) : t ∈ b.tokens itemTokens := by
  have hmem : t ∈ b.items.flatMap itemTokens := List.mem_flatMap.mpr ⟨i, hi, ht⟩
  exact .tail _ (.tail _ (List.mem_append_left _ hmem))

theorem Body.tree_worded {word : Keyword} (b : Body word) (location : Location)
    (h : ∀ t ∈ b.tokens, t.Lexical) : (b.tree location).Worded := by
  cases b with
  | name p => exact p.name.isWord_text (h _ List.mem_cons_self)
  | constant c => exact c.name.isWord_text (h _ List.mem_cons_self)
  | enum b =>
    refine ⟨b.name.isWord_text (h _ b.name_mem), fun w hw => ?_⟩
    obtain ⟨v, hv, rfl⟩ := List.mem_map.mp hw
    exact v.label.isWord_text (h _ (Block.item_mem hv List.mem_cons_self))
  | message b =>
    refine ⟨b.name.isWord_text (h _ b.name_mem), fun w hw => ?_⟩
    obtain ⟨f, hf, rfl⟩ := List.mem_map.mp hw
    exact f.name.isWord_text (h _ (Block.item_mem hf List.mem_cons_self))

/-- The names in the tree of a sentence are words if its tokens are those of a text. -/
theorem Sentence.tree_worded (s : Sentence) (h : ∀ t ∈ s.tokens, t.Lexical) :
    ∀ d ∈ s.tree, d.Worded := by
  intro tree htree
  obtain ⟨d, hd, rfl⟩ := List.mem_map.mp htree
  refine d.body.tree_worded _ fun t ht => h t ?_
  exact List.mem_flatMap.mpr ⟨d, hd, List.mem_cons_of_mem _ ht⟩

end Grammar

/-- All names of a schema are words. -/
structure Schema.Worded (s : Schema) : Prop where
  name : isWord s.name = true
  constants : ∀ c ∈ s.constants, isWord c.name = true
  enums : ∀ e ∈ s.enums, isWord e.name = true ∧ ∀ v ∈ e.variants, isWord v.label = true
  messages : ∀ m ∈ s.messages, isWord m.name = true ∧ ∀ f ∈ m.fields, isWord f.name = true

/-! ## Distinct keys -/

/-- The names, values and tags by which a schema is sorted are distinct. -/
structure Schema.Distinct (s : Schema) : Prop where
  enums : (s.enums.map Enum.name).Nodup
  messages : (s.messages.map Message.name).Nodup
  values : ∀ e ∈ s.enums, (e.variants.map Variant.value).Nodup
  tags : ∀ m ∈ s.messages, (m.fields.map Field.tag).Nodup

namespace Resolve

/-- What a list of images agrees on with the items. -/
theorem map_eq_of_forall₂ {α β γ : Type} {R : α → β → Prop} {f : α → γ} {g : β → γ}
    (hR : ∀ a b, R a b → g b = f a) {as : List α} {bs : List β} (h : List.Forall₂ R as bs) :
    bs.map g = as.map f := by
  induction h with
  | nil => rfl
  | cons hab _ ih => rw [List.map_cons, List.map_cons, hR _ _ hab, ih]

theorem exists_of_mem_forall₂ {α β : Type} {R : α → β → Prop} {as : List α} {bs : List β}
    (h : List.Forall₂ R as bs) {b : β} (hb : b ∈ bs) : ∃ a ∈ as, R a b := by
  induction h with
  | nil => cases hb
  | cons hab _ ih =>
    rcases List.mem_cons.mp hb with rfl | hb
    · exact ⟨_, List.mem_cons_self, hab⟩
    · obtain ⟨a, ha, hR⟩ := ih hb
      exact ⟨a, List.mem_cons_of_mem _ ha, hR⟩

end Resolve

namespace Schema

theorem ofText_eq_ok_iff {mode : ErrorMode} {text : String} {s : Schema} :
    Schema.ofText mode text = .ok s ↔
      ∃ stream ds, TokenStream.ofText text = .ok stream ∧ Written.ofTokens mode stream = .ok ds ∧
        Schema.ofDeclarations mode ds = .ok s := by
  unfold Schema.ofText
  cases TokenStream.ofText text with
  | error report =>
    refine ⟨nofun, ?_⟩
    rintro ⟨_, _, h, -⟩
    cases h
  | ok stream =>
    change (Written.ofTokens mode stream).bind (Schema.ofDeclarations mode) = .ok s ↔ _
    cases hds : Written.ofTokens mode stream with
    | error report =>
      refine ⟨nofun, ?_⟩
      rintro ⟨_, _, ⟨⟩, h, -⟩
      rw [hds] at h
      cases h
    | ok ds =>
      refine ⟨fun h => ⟨stream, ds, rfl, hds, h⟩, ?_⟩
      rintro ⟨_, _, ⟨⟩, h, hs⟩
      rw [hds] at h
      cases h
      exact hs

/-- The sentence behind an accepted text: its tokens are those of a text, and its tree becomes the
schema. -/
theorem exists_sentence_of_ofText {mode : ErrorMode} {text : String} {s : Schema}
    (h : Schema.ofText mode text = .ok s) :
    ∃ sentence : Grammar.Sentence,
      (∀ t ∈ sentence.tokens, t.Lexical) ∧ Resolve.Resolves sentence.tree s := by
  obtain ⟨stream, ds, htext, htokens, hds⟩ := ofText_eq_ok_iff.mp h
  have hlexical := TokenStream.ofText_lexical htext
  obtain ⟨sentence, hsentence, rfl⟩ :=
    (Parser.declarations_eq_iff hlexical).mp (Written.ofTokens_eq_ok_iff.mp htokens)
  rw [← hsentence] at hlexical
  exact ⟨sentence, hlexical, ofDeclarations_eq_ok_iff.mp hds⟩

/-- The declarations behind an accepted text: their names are words, and they become the schema. -/
theorem exists_resolves_of_ofText {mode : ErrorMode} {text : String} {s : Schema}
    (h : Schema.ofText mode text = .ok s) :
    ∃ ds : List Written.Declaration, (∀ d ∈ ds, d.Worded) ∧ Resolve.Resolves ds s := by
  obtain ⟨sentence, hlexical, hs⟩ := exists_sentence_of_ofText h
  exact ⟨_, sentence.tree_worded hlexical, hs⟩

theorem ofText_worded {mode : ErrorMode} {text : String} {s : Schema}
    (h : Schema.ofText mode text = .ok s) : s.Worded := by
  obtain ⟨ds, hwords, hs⟩ := exists_resolves_of_ofText h
  refine ⟨?_, fun c hc => ?_, fun e he => ?_, fun m hm => ?_⟩
  · rw [hs.name]
    cases hnames : Written.protocolNamesIn ds with
    | nil => decide
    | cons n ns => exact hwords _ (Written.mem_protocolNamesIn.mp (hnames ▸ List.mem_cons_self))
  · obtain ⟨w, hw, hc⟩ := Resolve.exists_of_mem_forall₂ hs.constants hc
    rw [hc.name]
    exact hwords _ (Written.mem_constantsIn.mp hw)
  · obtain ⟨w, hw, he⟩ := Resolve.exists_of_mem_forall₂ hs.enums he
    have hword := hwords _ (Written.mem_enumsIn.mp hw)
    refine ⟨he.name ▸ hword.1, fun v hv => ?_⟩
    obtain ⟨wv, hwv, hv⟩ := Resolve.exists_of_mem_forall₂ he.variants hv
    rw [hv.eq]
    exact hword.2 wv hwv
  · obtain ⟨w, hw, hm⟩ := Resolve.exists_of_mem_forall₂ hs.messages hm
    have hword := hwords _ (Written.mem_messagesIn.mp hw)
    refine ⟨hm.name ▸ hword.1, fun f hf => ?_⟩
    obtain ⟨wf, hwf, hf⟩ := Resolve.exists_of_mem_forall₂ hm.fields hf
    rw [hf.name]
    exact hword.2 wf hwf

/-- What is kept apart among declarations is kept apart in the schema they become. -/
theorem distinct_of_resolves {ds : List Written.Declaration} {s : Schema}
    (hs : Resolve.Resolves ds s) : s.Distinct := by
  refine ⟨?_, ?_, fun e he => ?_, fun m hm => ?_⟩
  · rw [Resolve.map_eq_of_forall₂ (fun _ _ he => he.name) hs.enums]
    exact Written.nodup_enumNames hs.distinct
  · rw [Resolve.map_eq_of_forall₂ (fun _ _ hm => hm.name) hs.messages]
    exact Written.nodup_messageNames hs.distinct
  · obtain ⟨w, -, he⟩ := Resolve.exists_of_mem_forall₂ hs.enums he
    rw [Resolve.map_eq_of_forall₂ (f := fun v => v.value) (fun _ _ hv => by rw [hv.eq]) he.variants]
    exact (Resolve.pairwise_sum_keys_iff.mp he.distinct).2
  · obtain ⟨w, -, hm⟩ := Resolve.exists_of_mem_forall₂ hs.messages hm
    -- tags are written as integers and kept as natural numbers
    have htags : m.fields.map (fun f => (f.tag : Int)) = w.fields.map fun f => f.tag :=
      Resolve.map_eq_of_forall₂ (fun _ _ hf => (Resolve.tag?_eq_some_iff.mp hf.tag).1.symm)
        hm.fields
    have hnodup : ((m.fields.map Field.tag).map (Nat.cast : Nat → Int)).Nodup := by
      rw [List.map_map]
      exact htags ▸ (Resolve.pairwise_sum_keys_iff.mp hm.distinct).1
    exact List.Nodup.of_map _ hnodup

theorem ofText_distinct {mode : ErrorMode} {text : String} {s : Schema}
    (h : Schema.ofText mode text = .ok s) : s.Distinct := by
  obtain ⟨ds, -, hs⟩ := exists_resolves_of_ofText h
  exact distinct_of_resolves hs

end Schema

end WireSchema
