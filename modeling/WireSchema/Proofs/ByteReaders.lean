import WireSchema.Wire.Bytes

/-!
# What the readers of bytes read

Two properties of a reader, and both go through `map`, `weaken` and `andThen`:

* `Reads r bytes a` — `r` takes `bytes` for `a`, whatever is behind them, and leaves what is behind;
* `SteadyOn r bs` — where `r` reads something from `bs`, further bytes at the end change nothing.

A steady reader that takes some bytes as a whole refuses every beginning of them
(`Reads.refuses_beginning`).
-/

namespace WireSchema.Wire

variable {α β : Type} {slack : Nat}

/-- The reader takes the bytes for the value and leaves what is behind them. -/
def Reads (r : Reader α slack) (bytes : List UInt8) (a : α) : Prop :=
  ∀ rest, ∃ h, r (bytes ++ rest) = .ok ⟨a, rest, h⟩

/-- What the reader reads from the bytes does not depend on where they end. -/
def SteadyOn (r : Reader α slack) (bs : List UInt8) : Prop :=
  ∀ t more, r bs = .ok t → ∃ h, r (bs ++ more) = .ok ⟨t.value, t.rest ++ more, h⟩

/-! ## Combinations of readers -/

/-- Changing a result changes nothing about the bytes. -/
theorem Reads.map {r : Reader α slack} {bytes : List UInt8} {a : α} (h : Reads r bytes a)
    (f : α → β) : Reads (r.map f) bytes (f a) := by
  intro rest
  obtain ⟨hshort, hr⟩ := h rest
  refine ⟨hshort, ?_⟩
  rw [Reader.map, hr]
  rfl

/-- A reader that takes bytes may be used where none need to be taken. -/
theorem Reads.weaken {r : Reader α 0} {bytes : List UInt8} {a : α} (h : Reads r bytes a) :
    Reads r.weaken bytes a := by
  intro rest
  obtain ⟨hshort, hr⟩ := h rest
  refine ⟨Nat.lt_succ_of_lt hshort, ?_⟩
  rw [Reader.weaken, hr]
  rfl

/-- A reader of at least one byte leaves fewer bytes than there were. -/
theorem Reader.length_rest_of_weaken {r : Reader α 0} {bs : List UInt8}
    {t : Taken α (bs.length + 1)} (h : r.weaken bs = .ok t) : t.rest.length < bs.length := by
  cases hr : r bs with
  | error e => simp [Reader.weaken, hr, Except.map] at h
  | ok t₀ =>
    obtain rfl : t₀.relax (Nat.le_succ _) = t := by simpa [Reader.weaken, hr, Except.map] using h
    exact t₀.short

/-- Giving a value reads no bytes. -/
theorem Reads.give (a : α) : Reads (.give a) [] a :=
  fun _ => ⟨Nat.lt_succ_self _, rfl⟩

/-- Readers one behind the other read bytes one behind the other. -/
theorem Reads.andThen {r : Reader α 1} {next : α → Reader β 1} {bytes bytes' : List UInt8} {a : α}
    {b : β} (h : Reads r bytes a) (h' : Reads (next a) bytes' b) :
    Reads (r.andThen next) (bytes ++ bytes') b := by
  intro rest
  rw [List.append_assoc]
  obtain ⟨hshort, hr⟩ := h (bytes' ++ rest)
  obtain ⟨hshort', hnext⟩ := h' rest
  refine ⟨Nat.lt_of_lt_of_le hshort' hshort, ?_⟩
  simp only [Reader.andThen, hr, hnext, bind, Except.bind]
  rfl

/-- Changing a result leaves a reader steady. -/
theorem SteadyOn.map {r : Reader α slack} {bs : List UInt8} (h : SteadyOn r bs) (f : α → β) :
    SteadyOn (r.map f) bs := by
  intro t more ht
  cases hr : r bs with
  | error e => simp [Reader.map, hr, Except.map] at ht
  | ok t₀ =>
    obtain ⟨hshort, hmore⟩ := h t₀ more hr
    obtain rfl : t₀.map f = t := by simpa [Reader.map, hr, Except.map] using ht
    refine ⟨hshort, ?_⟩
    rw [Reader.map, hmore]
    rfl

theorem SteadyOn.weaken {r : Reader α 0} {bs : List UInt8} (h : SteadyOn r bs) :
    SteadyOn r.weaken bs := by
  intro t more ht
  cases hr : r bs with
  | error e => simp [Reader.weaken, hr, Except.map] at ht
  | ok t₀ =>
    obtain ⟨hshort, hmore⟩ := h t₀ more hr
    obtain rfl : t₀.relax (Nat.le_succ _) = t := by simpa [Reader.weaken, hr, Except.map] using ht
    refine ⟨Nat.lt_succ_of_lt hshort, ?_⟩
    rw [Reader.weaken, hmore]
    rfl

/-- Giving a value does not look at any bytes. -/
theorem SteadyOn.give (a : α) (bs : List UInt8) : SteadyOn (.give a) bs := by
  rintro _ more ⟨⟩
  exact ⟨Nat.lt_succ_self _, rfl⟩

/-- Failing does not look at any bytes. -/
theorem SteadyOn.fail (error : DecodeError) (bs : List UInt8) :
    SteadyOn (.fail error : Reader α 1) bs :=
  nofun

/-- **Steady readers one behind the other are steady.** What the second one reads depends on the
first. -/
theorem SteadyOn.andThen {r : Reader α 1} {next : α → Reader β 1} {bs : List UInt8}
    (h : SteadyOn r bs) (h' : ∀ t, r bs = .ok t → SteadyOn (next t.value) t.rest) :
    SteadyOn (r.andThen next) bs := by
  intro t more ht
  cases hr : r bs with
  | error e => simp [Reader.andThen, hr, bind, Except.bind] at ht
  | ok t₁ =>
    cases hnext : next t₁.value t₁.rest with
    | error e => simp [Reader.andThen, hr, hnext, bind, Except.bind] at ht
    | ok t₂ =>
      obtain ⟨hshort, hmore⟩ := h t₁ more hr
      obtain ⟨hshort', hmore'⟩ := h' t₁ hr t₂ more hnext
      obtain rfl : t₂.relax t₁.short = t := by
        simpa [Reader.andThen, hr, hnext, bind, Except.bind, pure, Except.pure] using ht
      refine ⟨Nat.lt_of_lt_of_le hshort' hshort, ?_⟩
      simp only [Reader.andThen, hmore, hmore', bind, Except.bind]
      rfl

/-- A reader that reads some bytes reads them if nothing follows. -/
theorem Reads.whole {r : Reader α slack} {bytes : List UInt8} {a : α} (h : Reads r bytes a) :
    ∃ h, r bytes = .ok ⟨a, [], h⟩ := by
  have hr := h []
  rwa [List.append_nil] at hr

/-- A reader that takes some bytes as a whole refuses a proper beginning of them. -/
theorem Reads.refuses_beginning {r : Reader α slack} {bytes more : List UInt8} {a : α}
    (h : Reads r (bytes ++ more) a) (hsteady : SteadyOn r bytes) (hmore : more ≠ []) :
    ∃ e, r bytes = .error e := by
  cases hr : r bytes with
  | error e => exact ⟨e, rfl⟩
  | ok t =>
    obtain ⟨_, hlong⟩ := hsteady t more hr
    obtain ⟨_, hwhole⟩ := h.whole
    rw [hlong] at hwhole
    have hrest : t.rest ++ more = [] := congrArg Taken.rest (Except.ok.inj hwhole)
    exact absurd (List.append_eq_nil_iff.mp hrest).2 hmore

/-! ## Bytes -/

/-- A byte is read back. -/
theorem reads_byte (b : UInt8) : Reads readByte [b] b :=
  fun _ => ⟨Nat.lt_succ_self _, rfl⟩

theorem steadyOn_readByte (bs : List UInt8) : SteadyOn readByte bs := by
  intro t more h
  cases bs with
  | nil => cases h
  | cons b bs =>
    cases h
    exact ⟨by simp, rfl⟩

/-- As many bytes as there are, are read back. -/
theorem reads_bytes (bytes : List UInt8) : Reads (readBytes bytes.length) bytes bytes := by
  intro rest
  have hshort : rest.length < (bytes ++ rest).length + 1 := by
    rw [List.length_append]
    omega
  refine ⟨hshort, ?_⟩
  have hle : bytes.length ≤ (bytes ++ rest).length := by simp
  simp only [readBytes, hle, ↓reduceIte, List.take_left, List.drop_left]

/-- Reading a number of bytes does not look behind them. -/
theorem steadyOn_readBytes (n : Nat) (bs : List UInt8) : SteadyOn (readBytes n) bs := by
  intro t more h
  by_cases hn : n ≤ bs.length
  · simp only [readBytes, hn, ↓reduceIte, Except.ok.injEq] at h
    subst h
    have hle : n ≤ (bs ++ more).length := by
      rw [List.length_append]
      omega
    have hshort : (bs.drop n ++ more).length < (bs ++ more).length + 1 := by
      rw [List.length_append, List.length_append, List.length_drop]
      omega
    refine ⟨hshort, ?_⟩
    simp only [readBytes, hle, ↓reduceIte, List.take_append_of_le_length hn,
      List.drop_append_of_le_length hn]
  · simp [readBytes, hn] at h

/-! ## Varints -/

/-- How many numbers have `digits` digits in a base. -/
def capacity (base : Nat) : (digits : Nat) → Nat
  | 0 => 1
  | digits + 1 => base * capacity base digits

/-- **A varint is read back** if it has no more bytes than are allowed. -/
theorem reads_varintUpTo {limit n : Nat} (h : n < capacity 128 limit) (hlimit : 0 < limit) :
    Reads (readVarintUpTo limit) (varint n) n := by
  intro rest
  induction limit generalizing n with
  | zero => contradiction
  | succ limit ih =>
    rw [varint]
    by_cases hn : n < 128
    · have hbyte : (UInt8.ofNat n).toNat = n := by
        rw [UInt8.toNat_ofNat']
        omega
      rw [if_pos hn]
      refine ⟨by simp, ?_⟩
      simp only [List.singleton_append, readVarintUpTo, hbyte, hn, ↓reduceIte]
    · have hbyte : (UInt8.ofNat (n % 128 + 128)).toNat = n % 128 + 128 := by
        rw [UInt8.toNat_ofNat']
        omega
      have hdiv : n / 128 < capacity 128 limit := Nat.div_lt_of_lt_mul h
      have hpos : 0 < limit := by
        rcases limit with _ | limit
        · simp only [capacity] at hdiv
          omega
        · omega
      obtain ⟨hshort, hr⟩ := ih hdiv hpos
      have hmod : n % 128 + 128 - 128 + 128 * (n / 128) = n := by omega
      rw [if_neg hn]
      refine ⟨Nat.lt_succ_of_lt hshort, ?_⟩
      simp only [List.cons_append, readVarintUpTo, hbyte, hr, Except.map, hmod]
      rw [if_neg (by omega)]

/-- Reading a varint does not look behind its last byte. -/
theorem steadyOn_readVarintUpTo (limit : Nat) (bs : List UInt8) :
    SteadyOn (readVarintUpTo limit) bs := by
  induction limit generalizing bs with
  | zero => exact nofun
  | succ limit ih =>
    intro t more h
    cases bs with
    | nil => cases h
    | cons b bs =>
      by_cases hb : b.toNat < 128
      · simp only [readVarintUpTo, hb, ↓reduceIte, Except.ok.injEq] at h
        subst h
        refine ⟨by simp, ?_⟩
        simp only [List.cons_append, readVarintUpTo, hb, ↓reduceIte]
      · cases hr : readVarintUpTo limit bs with
        | error e => simp [readVarintUpTo, hb, hr, Except.map] at h
        | ok t₀ =>
          simp only [readVarintUpTo, hb, ↓reduceIte, hr, Except.map, Except.ok.injEq] at h
          subst h
          obtain ⟨hshort, hmore⟩ := ih bs t₀ more hr
          refine ⟨Nat.lt_succ_of_lt hshort, ?_⟩
          simp only [List.cons_append, readVarintUpTo, hb, ↓reduceIte, hmore, Except.map]

/-- Every number of 64 bits has a varint of ten bytes at most. -/
theorem reads_varint {n : Nat} (h : n < wordSize) : Reads readVarint (varint n) n := by
  have hlimit : n < capacity 128 10 := Nat.lt_trans h (by decide)
  have hr := (reads_varintUpTo hlimit (by decide)).map (· % wordSize)
  rwa [Nat.mod_eq_of_lt h] at hr

theorem steadyOn_readVarint (bs : List UInt8) : SteadyOn readVarint bs :=
  (steadyOn_readVarintUpTo 10 bs).map _

/-! ## Runs of bytes -/

/-- Counted bytes are read back. -/
theorem reads_counted {bytes : List UInt8} (h : bytes.length < wordSize) :
    Reads readCounted (counted bytes) bytes :=
  (reads_varint h).weaken.andThen (reads_bytes bytes)

theorem steadyOn_readCounted (bs : List UInt8) : SteadyOn readCounted bs :=
  (steadyOn_readVarint bs).weaken.andThen fun t _ => steadyOn_readBytes t.value t.rest

/-- A text is read back, since its bytes are well-formed. -/
theorem reads_text {text : String} (h : text.utf8ByteSize < wordSize) :
    Reads readText (countedText text) text := by
  have hgive : Reads (giveText (Text.utf8 text)) [] text := by
    rw [giveText, Text.fromUTF8?_eq_some_iff.mpr rfl]
    exact .give text
  have hr := (reads_counted h).andThen hgive
  rwa [List.append_nil] at hr

theorem steadyOn_readText (bs : List UInt8) : SteadyOn readText bs := by
  refine (steadyOn_readCounted bs).andThen fun t _ => ?_
  rw [giveText]
  split
  · exact .fail _ _
  · exact .give _ _

/-! ## Signed integers -/

/-- Folding the sign of a number into its lowest bit can be undone. -/
theorem unzigzag_zigzag (i : Int) : unzigzag (zigzag i) = i := by
  unfold unzigzag zigzag
  split <;> omega

/-- A signed number of 64 bits fits into a word after folding. -/
theorem zigzag_lt {i : Int} (h : -9223372036854775808 ≤ i) (h' : i ≤ 9223372036854775807) :
    zigzag i < wordSize := by
  unfold zigzag wordSize
  split <;> omega

/-- A number between -128 and 127 can be told from its byte. -/
theorem ofSignedByte_signedByte {i : Int} (h : -128 ≤ i) (h' : i ≤ 127) :
    ofSignedByte (signedByte i) = i := by
  have hbyte : (signedByte i).toNat = (i % 256).toNat := by
    rw [signedByte, UInt8.toNat_ofNat']
    omega
  rw [ofSignedByte, hbyte]
  split <;> omega

/-! ## Fixed widths -/

/-- A number of fixed width has that many bytes. -/
theorem length_littleEndian (width n : Nat) : (littleEndian width n).length = width := by
  induction width generalizing n with
  | zero => rfl
  | succ width ih => rw [littleEndian, List.length_cons, ih]

/-- A number that fits its width can be told from its bytes. -/
theorem ofLittleEndian_littleEndian {width n : Nat} (h : n < capacity 256 width) :
    ofLittleEndian (littleEndian width n) = n := by
  induction width generalizing n with
  | zero =>
    simp only [capacity] at h
    simp only [littleEndian, ofLittleEndian]
    omega
  | succ width ih =>
    have hbyte : (UInt8.ofNat (n % 256)).toNat = n % 256 := by
      rw [UInt8.toNat_ofNat']
      omega
    rw [littleEndian, ofLittleEndian, hbyte, ih (Nat.div_lt_of_lt_mul h)]
    omega

/-- Numbers of fixed width are read back. -/
theorem reads_littleEndian {width n : Nat} (h : n < capacity 256 width) :
    Reads (readLittleEndian width) (littleEndian width n) n := by
  have hr := (reads_bytes (littleEndian width n)).map ofLittleEndian
  rwa [length_littleEndian, ofLittleEndian_littleEndian h] at hr

theorem steadyOn_readLittleEndian (width : Nat) (bs : List UInt8) :
    SteadyOn (readLittleEndian width) bs :=
  (steadyOn_readBytes width bs).map _

end WireSchema.Wire
