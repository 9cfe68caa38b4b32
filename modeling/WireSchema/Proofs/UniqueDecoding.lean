import WireSchema.Proofs.AcceptedPlan
import WireSchema.Proofs.ByteReaders
import WireSchema.Wire.Codec

/-!
# Records can be read back

Every record that fits a message of an accepted schema has an encoding, and the encoding is read
back as that record and as nothing else: it has no proper beginning that is read, and nothing may
follow it.

The recursion of the readers goes by the number of bytes left. The equations of the first section
say the same by `Reader.andThen`, so that what is known of single readers carries over to records.
-/

namespace WireSchema.Wire

variable {plan : List Message}

/-! ## The readers as combinations -/

theorem readItems_zero (kind : Kind) : readItems plan kind 0 = .give [] := by
  funext bs
  rw [readItems]
  rfl

/-- Reading items is reading one and then the others. -/
theorem readItems_succ (kind : Kind) (count : Nat) :
    readItems plan kind (count + 1) =
      (readValue plan kind).andThen fun v => (readItems plan kind count).map (v :: ·) := by
  funext bs
  rw [readItems, Reader.andThen]
  cases readValue plan kind bs with
  | error e => rfl
  | ok first =>
    simp only [bind, Except.bind, Reader.map]
    cases readItems plan kind count first.rest <;> rfl

/-- A repeated field is a count and as many items. -/
theorem readField_repeated (kind : Kind) :
    readField plan true kind =
      readVarint.weaken.andThen fun n => (readItems plan kind n).map .list := by
  funext bs
  rw [readField, Reader.andThen, Reader.weaken]
  cases readVarint bs with
  | error e => rfl
  | ok count =>
    simp only [bind, Except.bind, Except.map, Reader.map, Taken.relax]
    cases readItems plan kind count.value count.rest <;> rfl

theorem readField_single (kind : Kind) : readField plan false kind = readValue plan kind := by
  funext bs
  rw [readField]
  rfl

/-- A message is read entry by entry. -/
theorem readValue_message {index : Nat} {m : Message} (h : plan[index]? = some m) :
    readValue plan (.message index) = (readEntries plan m []).map .message := by
  funext bs
  rw [readValue, h]
  rfl

/-- Any other value is read by itself. -/
theorem readValue_scalar {kind : Kind} (h : kind.isMessage = false) :
    readValue plan kind = readScalar kind := by
  funext bs
  cases kind with
  | message index => cases h
  | _ => simp [readValue]

/-- What follows a tag other than the terminator, and the entries behind it. -/
def readEntry (plan : List Message) (m : Message) (r : Record) (tag : Nat) : Reader Record 1 :=
  match m.fields.find? (·.tag = tag) with
  | none => .fail (.unknownTag tag m.message.name)
  | some f =>
    (readField plan f.repeated f.kind).andThen fun v =>
      readEntries plan m (Record.insert f.tag v r)

/-- Reading entries is reading a tag, and then the entry with this tag unless it is the
terminator. -/
theorem readEntries_eq (m : Message) (r : Record) :
    readEntries plan m r =
      readVarint.weaken.andThen fun tag => if tag = 0 then .give r else readEntry plan m r tag := by
  funext bs
  rw [readEntries, Reader.andThen, Reader.weaken]
  cases readVarint bs with
  | error e => rfl
  | ok tag =>
    simp only [bind, Except.bind, Except.map, Taken.relax]
    by_cases htag : tag.value = 0
    · simp only [htag, ↓reduceIte]
      rfl
    · simp only [htag, ↓reduceIte, readEntry]
      cases m.fields.find? (·.tag = tag.value) with
      | none => rfl
      | some f =>
        simp only [Reader.andThen, bind, Except.bind]
        cases readField plan f.repeated f.kind tag.rest with
        | error e => rfl
        | ok value =>
          dsimp only
          cases readEntries plan m (Record.insert f.tag value.value r) value.rest <;> rfl

/-! ## Further bytes change nothing -/

/-- Reading a scalar does not look behind it. -/
theorem steadyOn_readScalar (kind : Kind) (bs : List UInt8) : SteadyOn (readScalar kind) bs := by
  cases kind with
  | bool | uint8 | int8 => exact (steadyOn_readByte bs).weaken.map _
  | signedVarint | unsignedVarint | enum => exact (steadyOn_readVarint bs).weaken.map _
  | float32 | float64 => exact (steadyOn_readLittleEndian _ bs).map _
  | string => exact (steadyOn_readText bs).map _
  | bytes => exact (steadyOn_readCounted bs).map _
  | message index => exact .fail _ _

/-- Reading a value does not look behind it if reading entries does not. -/
theorem steadyOn_readValue_of {bs : List UInt8}
    (h : ∀ m r, SteadyOn (readEntries plan m r) bs) (kind : Kind) :
    SteadyOn (readValue plan kind) bs := by
  cases kind with
  | message index =>
    cases hm : plan[index]? with
    | none =>
      intro t more ht
      rw [readValue, hm] at ht
      cases ht
    | some m =>
      rw [readValue_message hm]
      exact (h m []).map _
  | _ =>
    rw [readValue_scalar rfl]
    exact steadyOn_readScalar _ bs

/-- Reading items does not look behind them if reading one of them does not. -/
theorem steadyOn_readItems_of {n : Nat} {kind : Kind}
    (h : ∀ bs, bs.length < n → SteadyOn (readValue plan kind) bs) (count : Nat) :
    ∀ bs, bs.length < n → SteadyOn (readItems plan kind count) bs := by
  induction count with
  | zero =>
    intro bs _
    rw [readItems_zero]
    exact .give _ _
  | succ count ih =>
    intro bs hbs
    rw [readItems_succ]
    refine (h bs hbs).andThen fun t _ => ?_
    have hshort := t.short
    exact (ih t.rest (by omega)).map _

/-- Reading a field does not look behind it if reading a value does not. -/
theorem steadyOn_readField_of {n : Nat} {kind : Kind}
    (h : ∀ bs, bs.length < n → SteadyOn (readValue plan kind) bs) (repeated : Bool) :
    ∀ bs, bs.length < n → SteadyOn (readField plan repeated kind) bs := by
  intro bs hbs
  cases repeated with
  | false =>
    rw [readField_single]
    exact h bs hbs
  | true =>
    rw [readField_repeated]
    refine (steadyOn_readVarint bs).weaken.andThen fun t _ => ?_
    have hshort := t.short
    exact (steadyOn_readItems_of h t.value t.rest (by omega)).map _

/-- Whatever is read from some bytes is read from them with more bytes at the end. The induction is
on a bound for their number, which every tag lowers. -/
theorem steadyOn_readEntries_of_length (n : Nat) :
    ∀ bs, bs.length < n → ∀ m r, SteadyOn (readEntries plan m r) bs := by
  induction n with
  | zero =>
    intro bs hbs
    contradiction
  | succ n ih =>
    intro bs hbs m r
    rw [readEntries_eq]
    refine (steadyOn_readVarint bs).weaken.andThen fun tag htag => ?_
    have hrest : tag.rest.length < n := by
      have := Reader.length_rest_of_weaken htag
      omega
    split
    · exact .give _ _
    · rw [readEntry]
      split
      · exact .fail _ _
      · rename_i f _
        have hvalue : ∀ bs, bs.length < n → SteadyOn (readValue plan f.kind) bs :=
          fun bs hbs => steadyOn_readValue_of (ih bs hbs) f.kind
        refine (steadyOn_readField_of hvalue f.repeated tag.rest hrest).andThen fun value _ => ?_
        have hshort := value.short
        exact ih value.rest (by omega) m _

/-- **Reading entries does not look behind the terminator.** The induction is on the number of
bytes, since every nested message takes some. -/
theorem steadyOn_readEntries (m : Message) (r : Record) (bs : List UInt8) :
    SteadyOn (readEntries plan m r) bs :=
  steadyOn_readEntries_of_length (bs.length + 1) bs (Nat.lt_succ_self _) m r

/-! ## Single values are read back -/

/-- The signed integers of more than one byte. -/
theorem ofType_eq_signedVarint {type : TypeRef} {p : Primitive}
    (h : Kind.ofType type = .signedVarint p) : p = .int16 ∨ p = .int32 ∨ p = .int64 := by
  cases type with
  | primitive q => cases q <;> simp_all [Kind.ofType, Kind.ofPrimitive]
  | message | enum => cases h

/-- The unsigned integers of more than one byte. -/
theorem ofType_eq_unsignedVarint {type : TypeRef} {p : Primitive}
    (h : Kind.ofType type = .unsignedVarint p) : p = .uint16 ∨ p = .uint32 ∨ p = .uint64 := by
  cases type with
  | primitive q => cases q <;> simp_all [Kind.ofType, Kind.ofPrimitive]
  | message | enum => cases h

/-- A number in the range of its type is between the bounds of the range. -/
theorem InRange.bounds {p : Primitive} {i least greatest : Int} (h : InRange p i)
    (hp : p.integerRange? = some (least, greatest)) : least ≤ i ∧ i ≤ greatest := by
  obtain ⟨_, _, hrange, hi⟩ := h
  rw [hp] at hrange
  cases hrange
  exact hi

/-- A signed number in its range fits into a word after folding its sign. -/
theorem InRange.zigzag_lt {p : Primitive} {i : Int} (h : InRange p i)
    (hp : p = .int16 ∨ p = .int32 ∨ p = .int64) : zigzag i < wordSize := by
  rcases hp with rfl | rfl | rfl
  all_goals
    obtain ⟨hleast, hgreatest⟩ := h.bounds rfl
    exact Wire.zigzag_lt (by omega) (by omega)

/-- An unsigned number in its range fits into a word. -/
theorem InRange.lt_wordSize {p : Primitive} {n : Nat} (h : InRange p n)
    (hp : p = .uint16 ∨ p = .uint32 ∨ p = .uint64) : n < wordSize := by
  rcases hp with rfl | rfl | rfl
  all_goals
    obtain ⟨-, hgreatest⟩ := h.bounds rfl
    unfold wordSize
    omega

/-- Folding the sign into the lowest bit can be undone. -/
theorem reads_zigzag {i : Int} (h : zigzag i < wordSize) :
    Reads (readVarint.weaken.map fun n => Value.int (unzigzag n)) (varint (zigzag i)) (.int i) := by
  have hr := (reads_varint h).weaken.map fun n => Value.int (unzigzag n)
  rwa [unzigzag_zigzag] at hr

/-- A value that fits a kind other than a message is read back. -/
theorem reads_scalar {type : TypeRef} {v : Value} (h : Fits plan false (.ofType type) v)
    (hkind : (Kind.ofType type).isMessage = false) :
    ∃ bytes, encodeScalar (.ofType type) v = some bytes ∧
      Reads (readScalar (.ofType type)) bytes v := by
  generalize hk : Kind.ofType type = kind at h hkind ⊢
  cases h with
  | bool b =>
    refine ⟨_, rfl, ?_⟩
    have hr := (reads_byte (if b then 1 else 0)).weaken.map fun b => Value.bool (b ≠ 0)
    cases b <;> exact hr
  | @uint8 n range =>
    obtain ⟨-, hgreatest⟩ := range.bounds rfl
    have hbyte : (UInt8.ofNat n).toNat = n := by
      rw [UInt8.toNat_ofNat']
      omega
    have hr := (reads_byte (UInt8.ofNat n)).weaken.map fun b => Value.uint b.toNat
    rw [hbyte] at hr
    exact ⟨_, rfl, hr⟩
  | @int8 i range =>
    obtain ⟨hleast, hgreatest⟩ := range.bounds rfl
    have hr := (reads_byte (signedByte i)).weaken.map fun b => Value.int (ofSignedByte b)
    rw [ofSignedByte_signedByte hleast hgreatest] at hr
    exact ⟨_, rfl, hr⟩
  | signedVarint range =>
    exact ⟨_, rfl, reads_zigzag (range.zigzag_lt (ofType_eq_signedVarint hk))⟩
  | unsignedVarint range =>
    exact ⟨_, rfl, (reads_varint (range.lt_wordSize (ofType_eq_unsignedVarint hk))).weaken.map _⟩
  | float32 bits =>
    have hr := (@reads_littleEndian 4 _ bits.toNat_lt).map fun n => Value.float32 (UInt32.ofNat n)
    rw [UInt32.ofNat_toNat] at hr
    exact ⟨_, rfl, hr⟩
  | float64 bits =>
    have hr := (@reads_littleEndian 8 _ bits.toNat_lt).map fun n => Value.float64 (UInt64.ofNat n)
    rw [UInt64.ofNat_toNat] at hr
    exact ⟨_, rfl, hr⟩
  | string size => exact ⟨_, rfl, (reads_text size).map _⟩
  | bytes size => exact ⟨_, rfl, (reads_counted size).map _⟩
  | enum range => exact ⟨_, rfl, reads_zigzag (range.zigzag_lt (.inr (.inr rfl)))⟩
  | message => cases hkind

/-! ## Records are read back -/

/-- Inserting a tag behind all others is appending it. -/
theorem insert_eq_append {r : Record} {tag : Nat} {v : Value} (h : ∀ e ∈ r, e.1 < tag) :
    Record.insert tag v r = r ++ [(tag, v)] := by
  induction r with
  | nil => rfl
  | cons e r ih =>
    have he : e.1 < tag := h e List.mem_cons_self
    rw [Record.insert, if_neg (by omega), if_neg (by omega), List.cons_append,
      ih fun e' he' => h e' (.tail _ he')]

/-- In a record with ascending tags, looking up finds what is there. -/
theorem lookup_eq_some_iff {r : Record} (h : r.Pairwise fun e e' => e.1 < e'.1) {tag : Nat}
    {v : Value} : r.lookup tag = some v ↔ (tag, v) ∈ r := by
  induction r with
  | nil => simp
  | cons e r ih =>
    obtain ⟨key, v'⟩ := e
    obtain ⟨hkey, hr⟩ := List.pairwise_cons.mp h
    by_cases htag : tag = key
    · subst htag
      have hnot : (tag, v) ∉ r := fun hmem => Nat.lt_irrefl _ (hkey (tag, v) hmem)
      simp [hnot, eq_comm]
    · have hbeq : (tag == key) = false := by simpa using htag
      simp [List.lookup_cons, hbeq, htag, ih hr]

/-- The entries of a record that some fields have, in the order of the fields. -/
def entriesOf (fields : List Field) (r : Record) : Record :=
  fields.filterMap fun f => (r.lookup f.tag).map fun v => (f.tag, v)

/-- A field without a value has no entry. -/
theorem entriesOf_cons_of_none {f : Field} {fields : List Field} {r : Record}
    (h : r.lookup f.tag = none) : entriesOf (f :: fields) r = entriesOf fields r := by
  simp [entriesOf, h]

/-- A field with a value has one. -/
theorem entriesOf_cons_of_some {f : Field} {fields : List Field} {r : Record} {v : Value}
    (h : r.lookup f.tag = some v) :
    entriesOf (f :: fields) r = (f.tag, v) :: entriesOf fields r := by
  simp [entriesOf, h]

/-- A record with known tags only is what the fields of its message have of it. -/
theorem entriesOf_eq {m : Message} (hm : m.Ordered) {r : Record}
    (ascending : r.Pairwise fun e e' => e.1 < e'.1)
    (known : ∀ e ∈ r, ∃ f ∈ m.fields, f.tag = e.1) : entriesOf m.fields r = r := by
  have hentries : (entriesOf m.fields r).Pairwise fun e e' => e.1 < e'.1 := by
    refine List.pairwise_filterMap.mpr (hm.ascending.imp fun {f f'} hlt e he e' he' => ?_)
    obtain ⟨_, -, rfl⟩ := Option.map_eq_some_iff.mp he
    obtain ⟨_, -, rfl⟩ := Option.map_eq_some_iff.mp he'
    exact hlt
  have hmem : ∀ e, e ∈ entriesOf m.fields r ↔ e ∈ r := by
    intro e
    refine ⟨fun he => ?_, fun he => ?_⟩
    · obtain ⟨f, -, hf⟩ := List.mem_filterMap.mp he
      obtain ⟨v, hv, rfl⟩ := Option.map_eq_some_iff.mp hf
      exact (lookup_eq_some_iff ascending).mp hv
    · obtain ⟨f, hf, htag⟩ := known e he
      refine List.mem_filterMap.mpr ⟨f, hf, ?_⟩
      rw [htag, (lookup_eq_some_iff ascending).mpr he]
      rfl
  have hne : ∀ {r : Record}, (r.Pairwise fun e e' => e.1 < e'.1) → r.Nodup :=
    fun h => h.imp fun hlt heq => Nat.ne_of_lt hlt (congrArg Prod.fst heq)
  have hperm := (List.perm_ext_iff_of_nodup (hne hentries) (hne ascending)).mpr hmem
  exact hperm.eq_of_pairwise (fun e e' _ _ hlt hgt => absurd hgt (Nat.lt_asymm hlt)) hentries
    ascending

/-- The terminator ends a record. -/
theorem reads_terminator (m : Message) (r : Record) :
    Reads (readEntries plan m r) (varint 0) r := by
  rw [readEntries_eq, ← List.append_nil (varint 0)]
  exact (reads_varint (by decide)).weaken.andThen (Reads.give r)

/-- An entry is read back if its field is, and reading goes on with the field inserted. -/
theorem reads_entry {m : Message} (hm : m.Ordered) {f : Field} (hf : f ∈ m.fields)
    {bytes bytes' : List UInt8} {v : Value} {r r' : Record}
    (hfield : Reads (readField plan f.repeated f.kind) bytes v)
    (hrest : Reads (readEntries plan m (Record.insert f.tag v r)) bytes' r') :
    Reads (readEntries plan m r) (varint f.tag ++ (bytes ++ bytes')) r' := by
  obtain ⟨hpos, hle⟩ := hm.bounds f hf
  have htag : f.tag < wordSize := Nat.lt_of_le_of_lt hle (by decide)
  have hentry : Reads (readEntry plan m r f.tag) (bytes ++ bytes') r' := by
    rw [readEntry, hm.find?_tag hf]
    exact hfield.andThen hrest
  rw [readEntries_eq]
  refine (reads_varint htag).weaken.andThen ?_
  rwa [if_neg (by omega)]

/-- A missing field is left out if it may be missing, and cannot be encoded otherwise. -/
theorem encodeFields_cons_of_none {f : Field} {fields : List Field} {r : Record}
    (h : r.lookup f.tag = none) :
    encodeFields plan (f :: fields) r =
      if f.presence = .whenSet then encodeFields plan fields r else none := by
  rw [encodeFields]
  split
  · rfl
  · simp_all

/-- A field that is there is encoded behind its tag. -/
theorem encodeFields_cons_of_some {f : Field} {fields : List Field} {r : Record} {v : Value}
    (h : r.lookup f.tag = some v) :
    encodeFields plan (f :: fields) r = do
      let first ← encodeField plan f.repeated f.kind v
      let others ← encodeFields plan fields r
      return varint f.tag ++ first ++ others := by
  rw [encodeFields]
  split
  · simp_all
  · rename_i v' hv'
    obtain rfl : v = v' := Option.some.inj (h.symm.trans hv')
    rfl

/-- Walking the fields of a message writes the entries of a record, and the loop of the reader takes
them up one by one. The induction is on the fields that are still to come; `done` is what the reader
has from the fields before them. -/
theorem reads_fields {m : Message} (hm : m.Ordered) {r : Record} {fields : List Field}
    (hmem : ∀ f ∈ fields, f ∈ m.fields) (hascending : fields.Pairwise fun f f' => f.tag < f'.tag)
    (hset : ∀ f ∈ fields, r.lookup f.tag = none → f.presence = .whenSet)
    (hread : ∀ f ∈ fields, ∀ v, r.lookup f.tag = some v →
      ∃ bytes, encodeField plan f.repeated f.kind v = some bytes ∧
        Reads (readField plan f.repeated f.kind) bytes v)
    {done : Record} (hdone : ∀ e ∈ done, ∀ f ∈ fields, e.1 < f.tag) :
    ∃ bytes, encodeFields plan fields r = some bytes ∧
      Reads (readEntries plan m done) (bytes ++ varint 0) (done ++ entriesOf fields r) := by
  induction fields generalizing done with
  | nil =>
    refine ⟨[], by rw [encodeFields], ?_⟩
    rw [entriesOf, List.filterMap_nil, List.append_nil]
    exact reads_terminator m done
  | cons f fields ih =>
    obtain ⟨hlt, hascending⟩ := List.pairwise_cons.mp hascending
    have ih := @ih (fun f' hf' => hmem f' (.tail _ hf')) hascending
      (fun f' hf' => hset f' (.tail _ hf')) (fun f' hf' => hread f' (.tail _ hf'))
    cases hlookup : r.lookup f.tag with
    | none =>
      obtain ⟨bytes, hbytes, hr⟩ := ih fun e he f' hf' => hdone e he f' (.tail _ hf')
      have hwhenSet := hset f List.mem_cons_self hlookup
      refine ⟨bytes, ?_, ?_⟩
      · rw [encodeFields_cons_of_none hlookup, if_pos hwhenSet, hbytes]
      · rwa [entriesOf_cons_of_none hlookup]
    | some v =>
      obtain ⟨first, hfirst, hfield⟩ := hread f List.mem_cons_self v hlookup
      have hbefore : ∀ e ∈ done, e.1 < f.tag := fun e he => hdone e he f List.mem_cons_self
      have hdone' : ∀ e ∈ done ++ [(f.tag, v)], ∀ f' ∈ fields, e.1 < f'.tag := by
        intro e he f' hf'
        rcases List.mem_append.mp he with he | he
        · exact hdone e he f' (.tail _ hf')
        · rw [List.mem_singleton.mp he]
          exact hlt f' hf'
      obtain ⟨bytes, hbytes, hr⟩ := ih hdone'
      refine ⟨varint f.tag ++ first ++ bytes, ?_, ?_⟩
      · rw [encodeFields_cons_of_some hlookup, hfirst, hbytes]
        rfl
      · rw [← insert_eq_append hbefore] at hr
        have hentry := reads_entry hm (hmem f List.mem_cons_self) hfield hr
        rw [entriesOf_cons_of_some hlookup]
        simpa [insert_eq_append hbefore] using hentry

theorem encodeField_single (kind : Kind) (v : Value) :
    encodeField plan false kind v = encodeValue plan kind v := by
  cases v with
  | list items => cases kind <;> simp [encodeField, encodeValue, encodeScalar]
  | _ => simp [encodeField]

theorem encodeValue_scalar {kind : Kind} (h : kind.isMessage = false) (v : Value) :
    encodeValue plan kind v = encodeScalar kind v := by
  cases kind with
  | message index => cases h
  | _ => simp [encodeValue]

/-- A scalar field is read back. -/
theorem reads_field_of_scalar {kind : Kind} {v : Value} (h : Fits plan false kind v)
    (hkind : ∃ type, kind = .ofType type) (hscalar : kind.isMessage = false) :
    ∃ bytes, encodeField plan false kind v = some bytes ∧
      Reads (readField plan false kind) bytes v := by
  obtain ⟨type, rfl⟩ := hkind
  rw [encodeField_single, encodeValue_scalar hscalar, readField_single, readValue_scalar hscalar]
  exact reads_scalar h hscalar

/-- **Items are read back** if each of them is. -/
theorem reads_items {kind : Kind} {items : List Value}
    (h : ∀ v ∈ items, ∃ bytes, encodeValue plan kind v = some bytes ∧
      Reads (readValue plan kind) bytes v) :
    ∃ bytes, encodeItems plan kind items = some bytes ∧
      Reads (readItems plan kind items.length) bytes items := by
  induction items with
  | nil =>
    refine ⟨[], by rw [encodeItems], ?_⟩
    rw [List.length_nil, readItems_zero]
    exact .give []
  | cons v items ih =>
    obtain ⟨first, hfirst, hr⟩ := h v List.mem_cons_self
    obtain ⟨others, hothers, hr'⟩ := ih fun v' hv' => h v' (.tail _ hv')
    refine ⟨first ++ others, by rw [encodeItems]; simp [hfirst, hothers], ?_⟩
    rw [List.length_cons, readItems_succ]
    exact hr.andThen (hr'.map _)

/-- A record whose values are read back is read back. -/
theorem reads_record {m : Message} (hm : m.Ordered) {r : Record}
    (ascending : r.Pairwise fun e e' => e.1 < e'.1)
    (known : ∀ e ∈ r, ∃ f ∈ m.fields, f.tag = e.1)
    (complete : ∀ f ∈ m.fields, f.presence = .always → ∃ e ∈ r, e.1 = f.tag)
    (hread : ∀ e ∈ r, ∀ f ∈ m.fields, f.tag = e.1 →
      ∃ bytes, encodeField plan f.repeated f.kind e.2 = some bytes ∧
        Reads (readField plan f.repeated f.kind) bytes e.2) :
    ∃ bytes, encodeFields plan m.fields r = some bytes ∧
      Reads (readEntries plan m []) (bytes ++ varint 0) r := by
  have hset : ∀ f ∈ m.fields, r.lookup f.tag = none → f.presence = .whenSet := by
    intro f hf hnone
    cases hpresence : f.presence with
    | whenSet => rfl
    | always =>
      obtain ⟨e, he, htag⟩ := complete f hf hpresence
      rw [← htag, (lookup_eq_some_iff ascending).mpr he] at hnone
      cases hnone
  have hread' : ∀ f ∈ m.fields, ∀ v, r.lookup f.tag = some v →
      ∃ bytes, encodeField plan f.repeated f.kind v = some bytes ∧
        Reads (readField plan f.repeated f.kind) bytes v :=
    fun f hf v hv => hread _ ((lookup_eq_some_iff ascending).mp hv) f hf rfl
  have hnone : ∀ e ∈ ([] : Record), ∀ f ∈ m.fields, e.1 < f.tag := nofun
  have h := reads_fields hm (fun _ hf => hf) hm.ascending hset hread' hnone
  rwa [List.nil_append, entriesOf_eq hm ascending known] at h

/-- The kind of a planned field comes from a type. -/
theorem exists_type_of_ordered {m : Message} (hm : m.Ordered) {f : Field} (hf : f ∈ m.fields) :
    ∃ type, f.kind = .ofType type :=
  ⟨f.field.type, congrArg Field.kind (hm.planned f hf)⟩

/-- Every value that fits a type is read back, nested messages and lists included. -/
theorem reads_of_fits (hplan : ∀ m ∈ plan, m.Ordered) {repeated : Bool} {kind : Kind} {v : Value}
    (h : Fits plan repeated kind v) (hkind : ∃ type, kind = .ofType type) :
    ∃ bytes, encodeField plan repeated kind v = some bytes ∧
      Reads (readField plan repeated kind) bytes v := by
  induction h with
  | @list kind items size typed ih =>
    simp only [encodeField_single, readField_single] at ih
    obtain ⟨bytes, hbytes, hr⟩ := reads_items fun v hv => ih v hv hkind
    refine ⟨varint items.length ++ bytes, by simp [encodeField, hbytes], ?_⟩
    rw [readField_repeated]
    exact (reads_varint size).weaken.andThen (hr.map _)
  | @message index m r planned ascending known complete typed ih =>
    have hm : m.Ordered := hplan m (List.mem_of_getElem? planned)
    obtain ⟨bytes, hbytes, hr⟩ := reads_record hm ascending known complete fun e he f hf htag =>
      ih e he f hf htag (exists_type_of_ordered hm hf)
    rw [encodeField_single, readField_single, readValue_message planned]
    refine ⟨bytes ++ varint 0, ?_, hr.map _⟩
    rw [encodeValue]
    simp [planned, hbytes]
  | bool b => exact reads_field_of_scalar (.bool b) hkind rfl
  | uint8 range => exact reads_field_of_scalar (.uint8 range) hkind rfl
  | int8 range => exact reads_field_of_scalar (.int8 range) hkind rfl
  | signedVarint range => exact reads_field_of_scalar (.signedVarint range) hkind rfl
  | unsignedVarint range => exact reads_field_of_scalar (.unsignedVarint range) hkind rfl
  | float32 bits => exact reads_field_of_scalar (.float32 bits) hkind rfl
  | float64 bits => exact reads_field_of_scalar (.float64 bits) hkind rfl
  | string size => exact reads_field_of_scalar (.string size) hkind rfl
  | bytes size => exact reads_field_of_scalar (.bytes size) hkind rfl
  | enum range => exact reads_field_of_scalar (.enum range) hkind rfl

/-! ## Unique decoding -/

section Decode

variable {index : Nat} {m : Message} {bytes more : List UInt8} {r : Record}

/-- Bytes that are read back as a record are decoded to it. -/
theorem decode_of_reads (h : plan[index]? = some m)
    (hr : Reads (readEntries plan m []) bytes r) : decode plan index bytes = .ok r := by
  obtain ⟨_, hwhole⟩ := hr.whole
  simp only [decode, h, hwhole, bind, Except.bind]
  rfl

/-- With more bytes behind them they are refused. -/
theorem decode_append_of_reads (h : plan[index]? = some m)
    (hr : Reads (readEntries plan m []) bytes r) (hmore : more ≠ []) :
    decode plan index (bytes ++ more) = .error .trailing := by
  obtain ⟨_, hrest⟩ := hr more
  simp only [decode, h, hrest, bind, Except.bind]
  rw [if_neg (by simpa using hmore)]
  rfl

/-- A proper beginning of them is refused as well. -/
theorem decode_refuses_beginning (h : plan[index]? = some m)
    (hr : Reads (readEntries plan m []) (bytes ++ more) r) (hmore : more ≠ []) :
    ∃ e, decode plan index bytes = .error e := by
  obtain ⟨e, he⟩ := hr.refuses_beginning (steadyOn_readEntries m [] bytes) hmore
  refine ⟨e, ?_⟩
  simp only [decode, h, he, bind, Except.bind]

end Decode

/-- **A record that fits is encoded, and its bytes are read back.** -/
theorem exists_encode_of_fits (hplan : ∀ m ∈ plan, m.Ordered) {index : Nat} {r : Record}
    (h : Fits plan false (.message index) (.message r)) :
    ∃ m bytes, plan[index]? = some m ∧ encode plan index r = some bytes ∧
      Reads (readEntries plan m []) bytes r := by
  cases h with
  | @message _ m _ planned ascending known complete typed =>
    have hm : m.Ordered := hplan m (List.mem_of_getElem? planned)
    obtain ⟨bytes, hbytes, hr⟩ := reads_record hm ascending known complete fun e he f hf htag =>
      reads_of_fits hplan (typed e he f hf htag) (exists_type_of_ordered hm hf)
    refine ⟨m, bytes ++ varint 0, planned, ?_, hr⟩
    rw [encode, encodeValue]
    simp [planned, hbytes]

end WireSchema.Wire

namespace WireSchema

open Wire

/-- **Records of an accepted schema are uniquely decodable.** Every record that fits a message has
an encoding. It is decoded as that record, no proper beginning of it is decoded, and neither is
anything that goes on behind it. -/
theorem Schema.decode_encode {mode : ErrorMode} {text : String} {s : Schema}
    (h : Schema.ofText mode text = .ok s) {index : Nat} {r : Record}
    (hr : Fits s.plan false (.message index) (.message r)) :
    ∃ bytes, encode s.plan index r = some bytes ∧ decode s.plan index bytes = .ok r ∧
      (∀ front, front <+: bytes → front ≠ bytes → ∃ e, decode s.plan index front = .error e) ∧
      ∀ b more, ∃ e, decode s.plan index (bytes ++ b :: more) = .error e := by
  obtain ⟨m, bytes, hm, hbytes, hreads⟩ := exists_encode_of_fits (ofText_plan_ordered h) hr
  refine ⟨bytes, hbytes, decode_of_reads hm hreads, ?_, ?_⟩
  · rintro front ⟨more, rfl⟩ hne
    refine decode_refuses_beginning hm hreads fun hmore => hne ?_
    rw [hmore, List.append_nil]
  · exact fun b more => ⟨_, decode_append_of_reads hm hreads (List.cons_ne_nil b more)⟩

/-- A list of nodes, each with its successor. -/
def chainText : String :=
  "message Node\x7bnext:Node=3;items:repeated uint64=1;delta:int32=2;\x7d"

/-- The schema of `chainText`. -/
def chainSchema : Schema :=
  { name := "protocol"
    messages :=
      [⟨"Node", [⟨"next", .message 0, 3, .single, ⟨1, 14⟩⟩,
        ⟨"items", .primitive .uint64, 1, .repeated, ⟨1, 26⟩⟩,
        ⟨"delta", .primitive .int32, 2, .single, ⟨1, 50⟩⟩], ⟨1, 9⟩⟩]
    enums := []
    constants := [] }

/-- A record fits a message of a schema by the fields that the message declares. -/
theorem fits_of_declared {s : Schema} {index : Nat} {m : Message}
    (hm : s.messages[index]? = some m) {r : Record}
    (ascending : r.Pairwise fun e e' => e.1 < e'.1)
    (known : ∀ e ∈ r, ∃ f ∈ m.fields, f.tag = e.1)
    (complete : ∀ f ∈ m.fields, (Wire.Field.ofField f).presence = .always → ∃ e ∈ r, e.1 = f.tag)
    (typed : ∀ e ∈ r, ∀ f ∈ m.fields, f.tag = e.1 → Fits s.plan f.isRepeated (.ofType f.type) e.2) :
    Fits s.plan false (.message index) (.message r) := by
  have hplan : s.plan[index]? = some (.ofMessage index m) := by
    rw [Schema.plan, List.getElem?_mapIdx, hm]
    rfl
  refine .message hplan ascending (fun e he => ?_) (fun f hf => ?_) fun e he f hf => ?_
  · obtain ⟨f, hf, htag⟩ := known e he
    exact ⟨.ofField f, List.mem_map_of_mem (Schema.mem_fieldsByTag_iff.mpr hf), htag⟩
  · obtain ⟨f, hmem, rfl⟩ := List.mem_map.mp hf
    exact complete f (Schema.mem_fieldsByTag_iff.mp hmem)
  · obtain ⟨f, hmem, rfl⟩ := List.mem_map.mp hf
    exact typed e he f (Schema.mem_fieldsByTag_iff.mp hmem)

/-- A node, and the entry for its successor where it has one. -/
def node (items : List Nat) (delta : Int) (next : Record) : Record :=
  (1, .list (items.map .uint)) :: (2, .int delta) :: next

/-- A node of the chain fits if its items, its delta and the node behind it do. -/
theorem node_fits {items : List Nat} {delta : Int} {next : Record}
    (hlength : items.length < wordSize) (hitems : ∀ n ∈ items, InRange .uint64 n)
    (hdelta : InRange .int32 delta)
    (hnext : next = [] ∨
      ∃ r, next = [(3, .message r)] ∧ Fits chainSchema.plan false (.message 0) (.message r)) :
    Fits chainSchema.plan false (.message 0) (.message (node items delta next)) := by
  have hlist : Fits chainSchema.plan true (.unsignedVarint .uint64) (.list (items.map .uint)) := by
    refine .list (by rwa [List.length_map]) fun v hv => ?_
    obtain ⟨n, hn, rfl⟩ := List.mem_map.mp hv
    exact .unsignedVarint (hitems n hn)
  have hsingle :
      (Wire.Field.ofField ⟨"next", .message 0, 3, .single, ⟨1, 14⟩⟩).presence ≠ .always := by
    decide
  rcases hnext with rfl | ⟨r, rfl, hr⟩
  · refine fits_of_declared rfl (by simp [node]) (by simp [node]) (by simp [node, hsingle]) ?_
    simpa [node] using ⟨hlist, .signedVarint hdelta⟩
  · refine fits_of_declared rfl (by simp [node]) (by simp [node]) (by simp [node]) ?_
    simpa [node] using ⟨hlist, .signedVarint hdelta, hr⟩

/-- Two nodes, with integers at the ends of their ranges. -/
def chain : Record :=
  node [0, 18446744073709551615] (-2147483648) [(3, .message (node [] 2147483647 []))]

theorem chain_decode_encode :
    Schema.ofText .collect chainText = .ok chainSchema ∧
      Fits chainSchema.plan false (.message 0) (.message chain) ∧
      ∃ bytes, encode chainSchema.plan 0 chain = some bytes ∧
        decode chainSchema.plan 0 bytes = .ok chain ∧
        (∀ front, front <+: bytes → front ≠ bytes →
          ∃ e, decode chainSchema.plan 0 front = .error e) ∧
        ∀ b more, ∃ e, decode chainSchema.plan 0 (bytes ++ b :: more) = .error e := by
  have h : Schema.ofText .collect chainText = .ok chainSchema := by decide +kernel
  have hlast : Fits chainSchema.plan false (.message 0) (.message (node [] 2147483647 [])) :=
    node_fits (by decide) nofun ⟨_, _, rfl, by decide, by decide⟩ (.inl rfl)
  have hitems : ∀ n ∈ [0, 18446744073709551615], InRange .uint64 (n : Nat) := by
    intro n hn
    refine ⟨_, _, rfl, by omega, ?_⟩
    simp at hn
    omega
  have hfits : Fits chainSchema.plan false (.message 0) (.message chain) :=
    node_fits (by decide) hitems ⟨_, _, rfl, by decide, by decide⟩ (.inr ⟨_, rfl, hlast⟩)
  exact ⟨h, hfits, Schema.decode_encode h hfits⟩

end WireSchema
