import WireSchema.Proofs.LocationFree
import WireSchema.Proofs.Relexing

/-!
# Layout never matters

What stands between the tokens of a text is **trivia**: blanks and comments. A `Layout` says which
trivia to put before, between and after tokens, with at least one piece between any two. Tokens can
be read back from any layout of them (`Layout.exists_ofText_render`): trivia carries no meaning
(`significant_split_trivia`) and ends the token before it (`Lexeme.exists_first_append`). Nothing
behind the tokens reads a location but to report it, so all layouts of a text have the same schema,
files and diagnostics, up to locations.
-/

namespace WireSchema

open Text (isBlank)

/-! ## Trivia -/

/-- A piece of text without meaning. -/
inductive Trivium where
  /-- a blank character -/
  | blank (c : Char) (isBlank : isBlank c = true)
  /-- a comment to the end of its line -/
  | line (body : List Char) (oneLine : '\n' ∉ body)
  /-- a comment with an end mark -/
  | block (body : List Char) (noEnd : ¬ ['*', '/'] <:+: body)

/-- How a piece of trivia is written. -/
def Trivium.chars : Trivium → List Char
  | .blank c _ => [c]
  | .line body _ => '/' :: '/' :: body ++ ['\n']
  | .block body _ => '/' :: '*' :: body ++ ['*', '/']

/-- What separates two tokens: at least one piece of trivia. -/
structure Gap where
  first : Trivium
  others : List Trivium

/-- How a sequence of trivia is written. -/
def triviaChars (trivia : List Trivium) : List Char :=
  trivia.flatMap Trivium.chars

/-- How a gap is written. -/
def Gap.chars (gap : Gap) : List Char :=
  triviaChars (gap.first :: gap.others)

/-- A comment that the end of the text ends. -/
structure LastComment where
  body : List Char
  oneLine : '\n' ∉ body

/-- How such a comment is written. -/
def LastComment.chars (comment : LastComment) : List Char :=
  '/' :: '/' :: comment.body

/-- What stands around tokens. -/
structure Layout where
  /-- before the first token -/
  lead : List Trivium
  /-- after each token but the last one, by its index -/
  gap : Nat → Gap
  /-- after the last token -/
  trail : List Trivium
  last : Option LastComment

/-- The spellings of tokens with gaps between them. -/
def spaced : (Nat → Gap) → List Token → List Char
  | _, [] => []
  | _, [t] => t.text.toList
  | gap, t :: u :: ts => t.text.toList ++ (gap 0).chars ++ spaced (fun i => gap (i + 1)) (u :: ts)

namespace Layout

/-- What stands after the last token. -/
def tail (layout : Layout) : List Char :=
  triviaChars layout.trail ++ (layout.last.map LastComment.chars).getD []

/-- Tokens written out. -/
def render (layout : Layout) (tokens : List Token) : String :=
  String.ofList (triviaChars layout.lead ++ spaced layout.gap tokens ++ layout.tail)

end Layout

namespace Segment

/-! ## Segments that carry meaning -/

/-- Is the segment a token or a bad piece? -/
def isSignificant (s : Segment) : Bool :=
  s.kind ≠ .blank && s.kind ≠ .comment

/-- The tokens and bad pieces among segments. -/
def significant (segments : List Segment) : List Segment :=
  segments.filter isSignificant

/-- A segment that means nothing can be left out. -/
theorem significant_split_cons {c : Char} {cs rest : List Char} {s : Segment}
    (h : first c cs = (s, rest)) (hs : s.isSignificant = false) :
    significant (split (c :: cs)) = significant (split rest) := by
  rw [split_cons, h, significant, List.filter_cons_of_neg (by simp [hs]), significant]

theorem significant_split_dropWhile (cs : List Char) :
    significant (split (cs.dropWhile isBlank)) = significant (split cs) := by
  cases cs with
  | nil => rfl
  | cons c cs =>
    by_cases hc : isBlank c = true
    · rw [List.dropWhile_cons_of_pos hc]
      refine (significant_split_cons (s := ⟨.blank, c :: cs.takeWhile isBlank⟩) ?_ rfl).symm
      rw [first, if_pos hc]
    · rw [List.dropWhile_cons_of_neg hc]

/-- A blank can be left out. -/
theorem significant_split_blank {c : Char} (hc : isBlank c = true) (cs : List Char) :
    significant (split (c :: cs)) = significant (split cs) := by
  rw [← significant_split_dropWhile (c :: cs), List.dropWhile_cons_of_pos hc,
    significant_split_dropWhile]

/-- A comment to the end of the line leaves its newline. -/
theorem significant_split_line {body rest : List Char} (hbody : '\n' ∉ body)
    (hrest : ∀ c ∈ rest.head?, c = '\n') :
    significant (split ('/' :: '/' :: (body ++ rest))) = significant (split rest) := by
  have hline : ∀ c ∈ '/' :: body, decide (c ≠ '\n') = true := by
    rintro c hc
    refine decide_eq_true ?_
    rintro rfl
    exact hbody ((List.mem_cons.mp hc).resolve_left (by decide))
  have hspan := span_append hline (by simpa using hrest)
  refine significant_split_cons (s := ⟨.comment, '/' :: '/' :: body⟩) ?_ rfl
  rw [← List.cons_append, first, if_neg (by decide), if_pos (by rfl), hspan.1, hspan.2]

/-- A comment ends at its own end mark. -/
theorem closeComment_append_end {body : List Char} (hbody : ¬ ['*', '/'] <:+: body)
    (rest : List Char) :
    closeComment (body ++ '*' :: '/' :: rest) = some (body ++ ['*', '/'], rest) := by
  induction body with
  | nil => rfl
  | cons c body ih =>
    have hopen : ¬ ['*', '/'] <:+: body := fun h => hbody (List.infix_cons h)
    rw [List.cons_append, closeComment, ih hopen]
    · rfl
    · -- an end mark that starts at this character would lie in the body
      rintro after rfl hafter
      cases body with
      | nil => exact absurd (List.cons.inj hafter).1 (by decide)
      | cons d body =>
        obtain rfl := (List.cons.inj hafter).1
        exact hbody ⟨[], body, rfl⟩

/-- A block comment can be left out. -/
theorem significant_split_block {body : List Char} (hbody : ¬ ['*', '/'] <:+: body)
    (rest : List Char) :
    significant (split ('/' :: '*' :: (body ++ '*' :: '/' :: rest))) =
      significant (split rest) := by
  refine significant_split_cons (s := ⟨.comment, '/' :: '*' :: (body ++ ['*', '/'])⟩) ?_ rfl
  have hblank : isBlank '/' = false := by decide
  simp [first, hblank, closeComment_append_end hbody]

/-- **Trivia carries no meaning.** -/
theorem significant_split_trivia (trivia : List Trivium) (rest : List Char) :
    significant (split (triviaChars trivia ++ rest)) = significant (split rest) := by
  induction trivia with
  | nil => rfl
  | cons t ts ih =>
    rw [triviaChars, List.flatMap_cons, List.append_assoc]
    change significant (split (t.chars ++ (triviaChars ts ++ rest))) = _
    rw [← ih]
    cases t with
    | blank c hc => exact significant_split_blank hc _
    | line body hbody =>
      -- the newline is not part of the comment, but it is a blank
      have hnewline : ∀ c ∈ ('\n' :: (triviaChars ts ++ rest)).head?, c = '\n' := by simp
      have hcut := significant_split_line hbody hnewline
      rw [significant_split_blank (c := '\n') (by decide)] at hcut
      simpa [Trivium.chars] using hcut
    | block body hbody => simpa [Trivium.chars] using significant_split_block hbody _

/-! ## What tokens are written as -/

/-- Blanks and comments delimit what stands before them. -/
theorem trivium_delimited (t : Trivium) (rest : List Char) : Delimited (t.chars ++ rest) := by
  intro c hc
  cases t with
  | blank d hd =>
    obtain rfl := Option.some.inj hc
    exact .inl hd
  | line body hbody => exact .inr (Option.some.inj hc).symm
  | block body hbody => exact .inr (Option.some.inj hc).symm

theorem triviaChars_delimited (trivia : List Trivium) {rest : List Char} (hrest : Delimited rest) :
    Delimited (triviaChars trivia ++ rest) := by
  cases trivia with
  | nil => exact hrest
  | cons t ts =>
    rw [triviaChars, List.flatMap_cons, List.append_assoc]
    exact trivium_delimited t _

/-- So does a gap between tokens. -/
theorem gap_delimited (gap : Gap) (rest : List Char) : Delimited (gap.chars ++ rest) := by
  rw [Gap.chars, triviaChars, List.flatMap_cons, List.append_assoc]
  exact trivium_delimited gap.first _

/-- The segment that a token is. -/
def ofToken (t : Token) : Segment :=
  ⟨.token t.kind, t.text.toList⟩

/-- A token is cut off as itself in front of what is delimited. -/
theorem significant_split_token {t : Token} (ht : Lexeme (ofToken t)) {rest : List Char}
    (hrest : Delimited rest) :
    significant (split (t.text.toList ++ rest)) = ofToken t :: significant (split rest) := by
  obtain ⟨c, cs, hchars, hfirst⟩ := ht.exists_first_append hrest
  have htext : t.text.toList = c :: cs := hchars
  rw [htext, List.cons_append, split_cons, hfirst]
  rfl

/-- Tokens with gaps between them, before a text that carries no meaning. -/
theorem significant_split_spaced (gap : Nat → Gap) {ts : List Token}
    (hts : ∀ t ∈ ts, Lexeme (ofToken t)) {rest : List Char} (hrest : Delimited rest)
    (hnone : significant (split rest) = []) :
    significant (split (spaced gap ts ++ rest)) = ts.map ofToken := by
  induction ts generalizing gap with
  | nil => exact hnone
  | cons t ts ih =>
    obtain ⟨ht, hts⟩ := List.forall_mem_cons.mp hts
    cases ts with
    | nil => rw [spaced, significant_split_token ht hrest, hnone]; rfl
    | cons u ts =>
      -- the gap ends the token before it and then says nothing of its own
      rw [spaced, List.append_assoc, List.append_assoc,
        significant_split_token ht (gap_delimited (gap 0) _), Gap.chars, significant_split_trivia,
        ih _ hts, ← List.map_cons]

/-- A token of a text is one wherever it stands. -/
theorem lexeme_of_mem_split {cs : List Char} {s : Segment} (hs : s ∈ split cs) {kind : Token.Kind}
    (hkind : s.kind = .token kind) : Lexeme s := by
  induction cs using split.induct with
  | case1 => simp at hs
  | case2 c cs ih =>
    rw [split_cons] at hs
    rcases List.mem_cons.mp hs with rfl | hs
    · exact lexeme_of_first hkind
    · exact ih hs

/-! ## Streams of tokens -/

/-- Without bad pieces, what carries meaning is the tokens. -/
theorem significant_eq_map_ofToken {segments : List Segment} {loc : Location}
    (h : (locate loc segments).filterMap diagnostic? = []) :
    significant segments = ((locate loc segments).filterMap token?).map ofToken := by
  induction segments generalizing loc with
  | nil => rfl
  | cons s segments ih =>
    obtain ⟨kind, chars⟩ := s
    cases kind with
    | blank => exact ih h
    | comment => exact ih h
    | token kind =>
      have htail := ih h
      simp only [significant, locate, List.filterMap_cons, token?, List.map_cons] at htail ⊢
      rw [List.filter_cons_of_pos (by rfl), htail, ofToken, String.toList_ofList]
    | bad fault => cases h

theorem map_snd_locate (loc : Location) (segments : List Segment) :
    (locate loc segments).map Prod.snd = segments := by
  induction segments generalizing loc with
  | nil => rfl
  | cons s segments ih => rw [locate, List.map_cons, ih]

/-- If all that carries meaning is tokens, nothing is bad. -/
theorem diagnostics_eq_nil {segments : List Segment} {ts : List Token}
    (h : significant segments = ts.map ofToken) (loc : Location) :
    (locate loc segments).filterMap diagnostic? = [] := by
  refine List.filterMap_eq_nil_iff.mpr fun (_, s) hs => ?_
  have hmem : s ∈ segments := map_snd_locate loc segments ▸ List.mem_map_of_mem hs
  obtain ⟨kind, chars⟩ := s
  cases kind with
  | bad fault =>
    have hsignificant : (⟨.bad fault, chars⟩ : Segment) ∈ significant segments :=
      List.mem_filter.mpr ⟨hmem, rfl⟩
    rw [h] at hsignificant
    obtain ⟨t, -, ht⟩ := List.mem_map.mp hsignificant
    cases ht
  | _ => rfl

end Segment

open Segment

namespace TokenStream

/-- The segments that mean something are the tokens. -/
theorem significant_of_ofText {text : String} {stream : TokenStream}
    (h : TokenStream.ofText text = .ok stream) :
    significant (split text.toList) = stream.tokens.map ofToken := by
  unfold TokenStream.ofText at h
  simp only at h
  cases hbad : (locate .start (split text.toList)).filterMap diagnostic? with
  | nil =>
    rw [hbad] at h
    obtain rfl := Except.ok.inj h
    exact significant_eq_map_ofToken hbad
  | cons d ds =>
    rw [hbad] at h
    cases h

/-- A text whose segments are tokens is accepted. -/
theorem exists_ofText_of_significant {text : String} {ts : List Token}
    (h : significant (split text.toList) = ts.map ofToken) :
    ∃ stream, TokenStream.ofText text = .ok stream ∧
      stream.tokens.map ofToken = ts.map ofToken := by
  have hbad := diagnostics_eq_nil h .start
  refine ⟨⟨(locate .start (split text.toList)).filterMap token?,
    Segment.finish .start (split text.toList)⟩, ?_, (significant_eq_map_ofToken hbad).symm.trans h⟩
  simp only [TokenStream.ofText, hbad, Report.guard]

/-- The tokens of a text are lexemes. -/
theorem lexeme_of_mem {text : String} {stream : TokenStream}
    (h : TokenStream.ofText text = .ok stream) {t : Token} (ht : t ∈ stream.tokens) :
    Lexeme (ofToken t) := by
  have hmem : ofToken t ∈ significant (split text.toList) := by
    rw [significant_of_ofText h]
    exact List.mem_map_of_mem ht
  exact lexeme_of_mem_split (List.mem_filter.mp hmem).1 rfl

end TokenStream

theorem Layout.significant_split_tail (layout : Layout) :
    Delimited layout.tail ∧ significant (split layout.tail) = [] := by
  obtain ⟨lead, gap, trail, last⟩ := layout
  have hlast : ∀ c ∈ ((last.map LastComment.chars).getD []).head?, c = '/' := by
    cases last with
    | none => simp
    | some comment => simp [LastComment.chars]
  refine ⟨triviaChars_delimited trail fun c hc => .inr (hlast c hc), ?_⟩
  rw [tail, significant_split_trivia]
  cases last with
  | none => simp [significant]
  | some comment =>
    have hcut := @significant_split_line comment.body [] comment.oneLine (by simp)
    simpa [significant, LastComment.chars] using hcut

/-- **Tokens are read back** from any layout of them. -/
theorem Layout.exists_ofText_render {text : String} {stream : TokenStream}
    (h : TokenStream.ofText text = .ok stream) (layout : Layout) :
    ∃ stream', TokenStream.ofText (layout.render stream.tokens) = .ok stream' ∧
      stream'.tokens.map ofToken = stream.tokens.map ofToken := by
  obtain ⟨htail, hnone⟩ := layout.significant_split_tail
  refine TokenStream.exists_ofText_of_significant ?_
  rw [render, String.toList_ofList, List.append_assoc, significant_split_trivia]
  exact significant_split_spaced layout.gap (fun t ht => TokenStream.lexeme_of_mem h ht) htail hnone

/-! ## Results up to locations -/

/-- A schema without its locations. -/
def Schema.unlocated (s : Schema) : Schema :=
  s.relocate fun _ => .start

/-- A report without its locations. -/
def Report.unlocated (r : Report) : Report :=
  r.relocate fun _ => .start

/-- Two texts are both rejected with the same report up to locations, or both accepted, with the
same schema up to locations, the same canonical form and fingerprint, and the same outcome of
generation for every target. -/
def SameUpToLocations : Except Report Schema → Except Report Schema → Prop
  | .ok s, .ok s' =>
    s.unlocated = s'.unlocated ∧ s.canonicalForm = s'.canonicalForm ∧
      s.fingerprint = s'.fingerprint ∧ ∀ target : Target, target.generate s = target.generate s'
  | .error r, .error r' => r.unlocated = r'.unlocated
  | _, _ => False

/-- Results that are the same without locations differ in locations only. -/
theorem sameUpToLocations_of_unlocated_eq {result result' : Except Report Schema}
    (h : relocateResult (fun _ => .start) Schema.unlocated result =
      relocateResult (fun _ => .start) Schema.unlocated result') :
    SameUpToLocations result result' := by
  cases result with
  | error r =>
    cases result' with
    | error r' => exact Except.error.inj h
    | ok s' => cases h
  | ok s =>
    cases result' with
    | error r' => cases h
    | ok s' =>
      have hs : s.unlocated = s'.unlocated := Except.ok.inj h
      refine ⟨hs, ?_, ?_, fun target => ?_⟩
      · rw [← s.canonicalForm_relocate, ← s'.canonicalForm_relocate]
        exact congrArg Schema.canonicalForm hs
      · rw [← s.fingerprint_relocate, ← s'.fingerprint_relocate]
        exact congrArg Schema.fingerprint hs
      · rw [← target.generate_relocate _ s, ← target.generate_relocate _ s']
        exact congrArg target.generate hs

/-- Tokens without their locations can be told from their segments. -/
theorem map_relocate_eq_of_map_ofToken_eq {ts ts' : List Token}
    (h : ts.map ofToken = ts'.map ofToken) :
    ts.map (Token.relocate fun _ => .start) = ts'.map (Token.relocate fun _ => .start) := by
  have hread : ∀ us : List Token, (us.map ofToken).filterMap (fun s => token? (.start, s)) =
      us.map (Token.relocate fun _ => .start) := by
    intro us
    have hone : (fun s => token? (.start, s)) ∘ ofToken = some ∘ Token.relocate fun _ => .start :=
      funext fun u => by simp [ofToken, token?]
    rw [List.filterMap_map, hone, List.filterMap_eq_map]
  rw [← hread, h, hread]

/-- What tokens become depends, up to locations, on their kinds and spellings alone. -/
theorem Schema.sameUpToLocations_of_tokens {stream stream' : TokenStream}
    (h : stream.tokens.map ofToken = stream'.tokens.map ofToken) (mode : ErrorMode) :
    SameUpToLocations (Written.ofTokens mode stream >>= Schema.ofDeclarations mode)
      (Written.ofTokens mode stream' >>= Schema.ofDeclarations mode) := by
  have hstream : stream.relocate (fun _ => .start) = stream'.relocate fun _ => .start := by
    rw [TokenStream.relocate, TokenStream.relocate, map_relocate_eq_of_map_ofToken_eq h]
  refine sameUpToLocations_of_unlocated_eq ?_
  have hrun := Schema.ofStream_relocate (fun _ => .start) mode stream
  rw [hstream, Schema.ofStream_relocate] at hrun
  exact hrun.symm

theorem Schema.ofText_of_stream {text : String} {stream : TokenStream}
    (h : TokenStream.ofText text = .ok stream) (mode : ErrorMode) :
    Schema.ofText mode text = (Written.ofTokens mode stream >>= Schema.ofDeclarations mode) := by
  rw [Schema.ofText, h]
  rfl

/-- **Layout never matters.** However the tokens of a text are laid out, they are read back, and in
both modes the text and its layout end alike up to locations. -/
theorem Schema.ofText_render {text : String} {stream : TokenStream}
    (h : TokenStream.ofText text = .ok stream) (layout : Layout) :
    (∃ stream', TokenStream.ofText (layout.render stream.tokens) = .ok stream' ∧
      stream'.tokens.map (fun t => (t.kind, t.text)) =
        stream.tokens.map fun t => (t.kind, t.text)) ∧
    ∀ mode, SameUpToLocations (Schema.ofText mode text)
      (Schema.ofText mode (layout.render stream.tokens)) := by
  obtain ⟨stream', h', htokens⟩ := layout.exists_ofText_render h
  refine ⟨⟨stream', h', ?_⟩, fun mode => ?_⟩
  · have hsame := congrArg (List.map fun t => (t.kind, t.text))
      (map_relocate_eq_of_map_ofToken_eq htokens)
    rwa [List.map_map, List.map_map] at hsame
  · rw [Schema.ofText_of_stream h, Schema.ofText_of_stream h']
    exact Schema.sameUpToLocations_of_tokens htokens.symm mode

/-- A text whose tokens touch, and the same tokens spread over lines and comments. -/
def crampedText : String :=
  "const s:string=\"//\";message M\x7bx:repeated K=2;\x7denum K\x7ba=-1;\x7d"

def airyLayout : Layout :=
  { lead := [.line "*/".toList (by decide), .blank '\u3000' (by decide)]
    gap := fun i => if i % 2 = 0 then ⟨.block " // * ".toList (by decide), []⟩
      else ⟨.line "/*".toList (by decide), [.blank ' ' (by decide)]⟩
    trail := [.blank '\n' (by decide)]
    last := some ⟨"end".toList, by decide⟩ }

theorem crampedText_airyLayout :
    ∃ stream, TokenStream.ofText crampedText = .ok stream ∧ stream.tokens.length = 26 ∧
      (Schema.ofText .failFast crampedText).isOk ∧
      ((∃ stream', TokenStream.ofText (airyLayout.render stream.tokens) = .ok stream' ∧
        stream'.tokens.map (fun t => (t.kind, t.text)) =
          stream.tokens.map fun t => (t.kind, t.text)) ∧
      ∀ mode, SameUpToLocations (Schema.ofText mode crampedText)
        (Schema.ofText mode (airyLayout.render stream.tokens))) := by
  have hrun : (TokenStream.ofText crampedText).map (·.tokens.length) = .ok 26 := by decide +kernel
  have hok : (Schema.ofText .failFast crampedText).isOk = true := by decide +kernel
  obtain ⟨stream, h, hlength⟩ := map_eq_ok_iff.mp hrun
  exact ⟨stream, h, hlength, hok, Schema.ofText_render h airyLayout⟩

end WireSchema
