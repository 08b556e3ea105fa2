import UtilityClasses.Proofs.Cursor.Agreement

/-!
# The steps of a cursor

A cursor that is where a scan stands looks up what lies ahead of the scan, and every move of it
is one of the scan.
-/

namespace UtilityClasses.Cursor

open Text (byteSize)
open Scan (Runs)

variable {α β γ δ : Type} {source inside later : List Char} {s t : Scan.State} {c d : Char}
  {f : α → Reading γ} {g : β → Scan δ} {x : Reading γ} {y z : Scan δ}
  {Q : γ → δ → Scan.State → Prop}

/-! ### Where the scan stands -/

theorem byteSize_source (hat : s.At source) :
  byteSize source = s.pos + byteSize s.rest
  := by
  obtain ⟨passed, hsource, hpos⟩ := hat
  rw [hsource, Text.byteSize_append, hpos]

theorem drop_encode (hat : s.At source) :
  (encode source).drop s.pos = encode s.rest
  := by
  obtain ⟨passed, hsource, hpos⟩ := hat
  rw [hsource, encode_append, hpos, ← length_encode, List.drop_left]

/-- The offset of a scan is that of a character. -/
theorem isSome_cutAt (hat : s.At source) :
  (Text.cutAt s.pos source).isSome = true
  := by
  obtain ⟨passed, hsource, hpos⟩ := hat
  rw [hsource, hpos, Text.cutAt_byteSize_append]
  rfl

/-! ### Looking at bytes -/

/-- A step that only looks something up. -/
theorem agrees_of_eq {x : Reading α} {a : α} (h : s.At source → x source (.of s) = .ok (a, .of s)) :
  Agrees source s (x >>= f) z Q ↔ Agrees source s (f a) z Q
  := by
  apply Agrees.congr_left
  intro hat
  rw [bind_apply, h hat]

@[simp]
theorem agrees_position {f : Nat → Reading γ} :
  Agrees source s (position >>= f) z Q ↔ Agrees source s (f s.pos) z Q
  := agrees_of_eq fun _ => rfl

@[simp]
theorem agrees_get {f : State → Reading γ} :
  Agrees source s (get >>= f) z Q ↔ Agrees source s (f (.of s)) z Q
  := agrees_of_eq fun _ => rfl

@[simp]
theorem agrees_spanFrom {start : Nat} {f : Span → Reading γ} :
  Agrees source s (spanFrom start >>= f) z Q ↔ Agrees source s (f ⟨start, s.pos⟩) z Q
  := agrees_of_eq fun _ => rfl

theorem byteAhead_apply (hat : s.At source) (count : Nat) :
  byteAhead count source (.of s) = .ok ((encode s.rest)[count]?.getD 0, .of s)
  := by
  rw [← drop_encode hat, List.getElem?_drop]
  rfl

@[simp]
theorem agrees_byteAhead {count : Nat} {f : UInt8 → Reading γ} :
  Agrees source s (byteAhead count >>= f) z Q ↔
    Agrees source s (f ((encode s.rest)[count]?.getD 0)) z Q
  := agrees_of_eq fun hat => byteAhead_apply hat count

@[simp]
theorem agrees_current {f : UInt8 → Reading γ} :
  Agrees source s (current >>= f) z Q ↔ Agrees source s (f (lead s.rest)) z Q
  := agrees_byteAhead

theorem atEnd_apply (hat : s.At source) :
  atEnd source (.of s) = .ok (s.rest.isEmpty, .of s)
  := by
  have hdecide : decide (byteSize source ≤ s.pos) = s.rest.isEmpty := by
    rw [byteSize_source hat, Bool.eq_iff_iff, decide_eq_true_iff, List.isEmpty_iff]
    constructor
    · intro hle
      by_contra hne
      have hpos := Text.byteSize_pos hne
      omega
    · intro hnil
      simp [hnil, byteSize]
  rw [← hdecide]
  rfl

@[simp]
theorem agrees_atEnd {f : Bool → Reading γ} :
  Agrees source s (atEnd >>= f) z Q ↔ Agrees source s (f s.rest.isEmpty) z Q
  := agrees_of_eq atEnd_apply

/-- The text between two places of a scan. -/
theorem slice_apply (hat : s.At source) (hat' : t.At source) (hrest : s.rest = inside ++ t.rest)
    (state : State) :
  slice s.pos t.pos source state = .ok (inside, state)
  := by
  obtain ⟨passed, hsource, hpos⟩ := hat
  obtain ⟨passed', hsource', hpos'⟩ := hat'
  have hpassed : passed' = passed ++ inside := by
    rw [hsource, hrest, ← List.append_assoc, List.append_cancel_right_eq] at hsource'
    exact hsource'.symm
  have hstop : Text.cutAt t.pos source = some (passed', t.rest) := by
    rw [hsource', hpos', Text.cutAt_byteSize_append]
  have hstart : Text.cutAt s.pos passed' = some (passed, inside) := by
    rw [hpassed, hpos, Text.cutAt_byteSize_append]
  rw [slice, read_bind_apply]
  simp only [hstop, hstart]
  rfl

theorem ahead_apply (hat : s.At source) :
  ahead source (.of s) = .ok (encode s.rest, .of s)
  := by
  have hend : (s.after s.rest.length).pos = byteSize source := by
    rw [byteSize_source hat, Scan.State.after, List.take_length]
  have hslice : slice s.pos (s.after s.rest.length).pos source (.of s) = .ok (s.rest, .of s) :=
    slice_apply hat (hat.after s.rest.length) (by simp) (.of s)
  rw [hend] at hslice
  change (slice s.pos (byteSize source) >>= fun text => Pure.pure (encode text)) source (.of s) = _
  rw [bind_apply, hslice]
  rfl

@[simp]
theorem agrees_ahead {f : List UInt8 → Reading γ} :
  Agrees source s (ahead >>= f) z Q ↔ Agrees source s (f (encode s.rest)) z Q
  := agrees_of_eq ahead_apply

theorem agrees_startsWith {text : List Char} (h : ∀ d ∈ text, IsAscii d) {f : Bool → Reading γ} :
  Agrees source s (startsWith text >>= f) z Q ↔
    Agrees source s (f (text.isPrefixOf s.rest)) z Q
  := by
  rw [startsWith, bind_assoc, agrees_ahead, pure_bind, isPrefixOf_encode h]

theorem agrees_startsWithFolded {text : List Char} (h : ∀ d ∈ text, IsAscii d)
    {f : Bool → Reading γ} :
  Agrees source s (startsWithFolded text >>= f) z Q ↔
    Agrees source s (f (Scan.startsWithFolded text s.rest)) z Q
  := by
  have hlower : ∀ d ∈ text.map Char.toLower, IsAscii d := by
    intro d hd
    obtain ⟨c, hc, rfl⟩ := List.mem_map.mp hd
    exact (toLower_byte (h c hc)).2
  rw [startsWithFolded, bind_assoc, agrees_ahead, pure_bind, map_toLower_encode,
    map_toLower_encode, isPrefixOf_encode hlower]
  rfl

/-- The text between two places of the scan. -/
theorem agrees_slice {opening closing : Scan.State} (hat : opening.At source)
    (hat' : closing.At source) (hrest : opening.rest = inside ++ closing.rest)
    {f : List Char → Reading γ} :
  Agrees source t (slice opening.pos closing.pos >>= f) z Q ↔ Agrees source t (f inside) z Q
  := agrees_of_eq fun _ => slice_apply hat hat' hrest _

/-- What has been passed since the scan stood in an earlier state. -/
theorem agrees_sliceFrom (hat : s.At source) (hrest : s.rest = inside ++ t.rest)
    {f : List Char → Reading γ} :
  Agrees source t (sliceFrom s.pos >>= f) z Q ↔ Agrees source t (f inside) z Q
  := by
  rw [sliceFrom, bind_assoc, agrees_position]
  exact agrees_of_eq fun hat' => slice_apply hat hat' hrest _

/-! ### Looking at characters -/

@[simp]
theorem agrees_scan_rest {g : List Char → Scan δ} {x : Reading γ} :
  Agrees source s x (Scan.rest >>= g) Q ↔ Agrees source s x (g s.rest) Q
  := Agrees.congr_right rfl

@[simp]
theorem agrees_scan_position {g : Nat → Scan δ} {x : Reading γ} :
  Agrees source s x (Scan.position >>= g) Q ↔ Agrees source s x (g s.pos) Q
  := Agrees.congr_right rfl

@[simp]
theorem agrees_scan_get {g : Scan.State → Scan δ} {x : Reading γ} :
  Agrees source s x (get >>= g) Q ↔ Agrees source s x (g s) Q
  := Agrees.congr_right rfl

@[simp]
theorem agrees_scan_spanFrom {start : Nat} {g : Span → Scan δ} {x : Reading γ} :
  Agrees source s x (Scan.spanFrom start >>= g) Q ↔ Agrees source s x (g ⟨start, s.pos⟩) Q
  := Agrees.congr_right rfl

/-! ### Moving -/

/-- The cursor goes to a place of a scan. -/
theorem moveTo_apply (hat : t.At source) (state : State) :
  moveTo t.pos source state = .ok ((), { state with pos := t.pos })
  := by
  rw [moveTo, read_bind_apply, if_pos (isSome_cutAt hat)]
  rfl

theorem moveTo_after_apply (hat : s.At source) (count : Nat) :
  moveTo (s.after count).pos source (.of s) = .ok ((), .of (s.after count))
  := moveTo_apply (hat.after count) _

/-- The offset of a scan that has passed a first part of the text. -/
theorem after_length_pos (h : s.rest = inside ++ later) :
  (s.after inside.length).pos = s.pos + byteSize inside
  := by
  rw [Scan.State.after, h, List.take_left]

theorem advanceBy_apply (hat : s.At source) (h : s.rest = inside ++ later) :
  advanceBy (byteSize inside) source (.of s) = .ok ((), .of (s.after inside.length))
  := by
  have hmin : min (s.pos + byteSize inside) (byteSize source) = (s.after inside.length).pos := by
    rw [byteSize_source hat, after_length_pos h, h, Text.byteSize_append]
    omega
  change moveTo (min (s.pos + byteSize inside) (byteSize source)) source (.of s) = _
  rw [hmin]
  exact moveTo_after_apply hat _

theorem pos_after_one (hascii : IsAscii c) (h : s.rest.head? = some c) :
  (s.after 1).pos = s.pos + 1
  := by
  obtain ⟨later, hrest⟩ := List.head?_eq_some_iff.mp h
  have hpos : (s.after [c].length).pos = s.pos + byteSize [c] := after_length_pos hrest
  rwa [byteSize_of_isAscii (by simpa using hascii)] at hpos

/-- The offset stays the same if nothing is passed. -/
theorem pos_after_eq_iff (s : Scan.State) (count : Nat) :
  (s.after count).pos = s.pos ↔ (s.rest.take count).isEmpty = true
  := by
  have hpos : (s.after count).pos = s.pos + byteSize (s.rest.take count) := rfl
  rw [hpos, List.isEmpty_iff]
  constructor
  · intro heq
    by_contra hne
    have hsize := Text.byteSize_pos hne
    omega
  · intro hnil
    simp [hnil, byteSize]

/-- Two characters that lie ahead are passed together. -/
theorem prefix_of_head? {text : List Char} (hc : text.head? = some c)
    (hd : (text.drop 1).head? = some d) :
  [c, d] <+: text
  := by
  obtain ⟨rest, rfl⟩ := List.head?_eq_some_iff.mp hc
  obtain ⟨later, hrest⟩ := List.head?_eq_some_iff.mp hd
  obtain rfl : rest = d :: later := hrest
  exact ⟨later, rfl⟩

/-- A text of ASCII characters is passed by passing as many bytes. -/
theorem mirrors_advanceBy (text : List Char) (hascii : ∀ d ∈ text, IsAscii d)
    (h : text <+: s.rest) :
  Mirrors source s (advanceBy text.length) (Scan.skip text.length)
  := by
  intro hat
  obtain ⟨later, hrest⟩ := h
  refine .inl ⟨(), (), s.after text.length, ?_, Scan.runs_skip.mpr rfl, hat.after _, rfl,
    .after s _⟩
  have hadvance := advanceBy_apply hat hrest.symm
  rwa [byteSize_of_isAscii hascii] at hadvance

theorem mirrors_advance (hascii : IsAscii c) (h : s.rest.head? = some c) :
  Mirrors source s advance (Scan.skip 1)
  := by
  obtain ⟨later, hrest⟩ := List.head?_eq_some_iff.mp h
  apply mirrors_advanceBy [c]
  · simpa using hascii
  · rw [hrest]
    exact ⟨later, rfl⟩

/-- The reading and the scan go on behind a text that both pass. -/
theorem Agrees.skipBy {f : Unit → Reading γ} {g : Unit → Scan δ} (text : List Char)
    (hascii : ∀ d ∈ text, IsAscii d) (h : text <+: s.rest)
    (hnext : Agrees source (s.after text.length) (f ()) (g ()) Q) :
  Agrees source s (Cursor.advanceBy text.length >>= f) (Scan.skip text.length >>= g) Q
  := by
  apply (mirrors_advanceBy text hascii h).bind
  rintro _ t ht -
  obtain rfl := Scan.runs_skip.mp ht
  exact hnext

theorem Agrees.skip {f : Unit → Reading γ} {g : Unit → Scan δ} (hascii : IsAscii c)
    (h : s.rest.head? = some c) (hnext : Agrees source (s.after 1) (f ()) (g ()) Q) :
  Agrees source s (advance >>= f) (Scan.skip 1 >>= g) Q
  := by
  apply (mirrors_advance hascii h).bind
  rintro _ t ht -
  obtain rfl := Scan.runs_skip.mp ht
  exact hnext

/-- A text is passed if it lies ahead. -/
theorem agrees_eatText {text : List Char} (hascii : ∀ d ∈ text, IsAscii d) :
  Agrees source s (eatText text) (Scan.skip (if text.isPrefixOf s.rest then text.length else 0))
    fun found _ _ => found = decide (text.isPrefixOf s.rest = true)
  := by
  rw [eatText, agrees_startsWith hascii, length_encode, byteSize_of_isAscii hascii]
  split
  · next hstarts =>
    have hahead := List.isPrefixOf_iff_prefix.mp hstarts
    exact (mirrors_advanceBy text hascii hahead).bind_left fun _ _ _ _ _ =>
      .pure (decide_eq_true hstarts).symm
  · next hstarts =>
    exact .of_runs (b := ()) (Scan.runs_skip.mpr s.after_zero.symm) (decide_eq_false hstarts).symm

/-- The cursor passes something if it lies ahead, and goes on accordingly. -/
theorem Agrees.tests {x : Reading Bool} {p : Prop} [Decidable p] {count : Nat}
    {f : Bool → Reading γ} {w : Scan δ}
    (h : Agrees source s x (Scan.skip (if p then count else 0)) fun found _ _ => found = decide p)
    (hpos : p → Agrees source (s.after count) (f true) w Q)
    (hneg : ¬ p → Agrees source s (f false) z Q) :
  Agrees source s (x >>= f) (if p then Scan.skip count >>= fun _ => w else z) Q
  := by
  by_cases hp : p
  · rw [if_pos hp] at h ⊢
    apply h.bind
    rintro _ _ t ht rfl
    obtain rfl := Scan.runs_skip.mp ht
    rw [decide_eq_true hp]
    exact hpos hp
  · have hstay : z s = (Scan.skip 0 >>= fun _ => z) s := by
      rw [Scan.bind_apply, Scan.skip_apply, s.after_zero]
    rw [if_neg hp] at h ⊢
    rw [Agrees.congr_right hstay]
    apply h.bind
    rintro _ _ t ht rfl
    obtain rfl : t = s := (Scan.runs_skip.mp ht).trans s.after_zero
    rw [decide_eq_false hp]
    exact hneg hp

theorem advanceBy_apply_nil (hat : s.At source) (h : s.rest = []) (count : Nat) :
  advanceBy count source (.of s) = .ok ((), .of s)
  := by
  have hmin : min (s.pos + count) (byteSize source) = s.pos := by
    rw [byteSize_source hat, h, byteSize]
    omega
  change moveTo (min (s.pos + count) (byteSize source)) source (.of s) = _
  rw [hmin]
  exact moveTo_apply hat _

/-- Nothing is passed at the end. -/
theorem after_of_rest_nil (h : s.rest = []) (count : Nat) :
  s.after count = s
  := by
  rw [← s.after_length_take, h, List.take_nil, List.length_nil, s.after_zero]

/-- A character is passed as a whole; at the end there is none. -/
theorem mirrors_advanceChar :
  Mirrors source s advanceChar (Scan.skip 1)
  := by
  intro hat
  refine .inl ⟨(), (), s.after 1, ?_, Scan.runs_skip.mpr rfl, hat.after _, rfl, .after s _⟩
  rw [advanceChar, current, bind_apply, byteAhead_apply hat]
  cases hrest : s.rest with
  | nil =>
    rw [after_of_rest_nil hrest]
    exact advanceBy_apply_nil hat hrest _
  | cons c later =>
    have hwidth : width ((encode (c :: later))[0]?.getD 0) = byteSize [c] := width_lead_cons
    simp only [hwidth]
    have hadvance : advanceBy (byteSize [c]) source (.of s) = .ok ((), .of (s.after 1)) :=
      advanceBy_apply hat hrest
    exact hadvance

theorem eatWhile_apply {kind : UInt8 → Bool} {kind' : Char → Bool} (h : Reflects kind kind')
    (hat : s.At source) :
  eatWhile kind source (.of s) = .ok ((), .of (s.after (s.rest.takeWhile kind').length))
  := by
  have hpos : s.pos + (((encode source).drop s.pos).takeWhile kind).length =
      (s.after (s.rest.takeWhile kind').length).pos := by
    rw [drop_encode hat, h.takeWhile, length_encode,
      after_length_pos List.takeWhile_append_dropWhile.symm]
  change moveTo (s.pos + (((encode source).drop s.pos).takeWhile kind).length) source (.of s) = _
  rw [hpos]
  exact moveTo_after_apply hat _

/-- The cursor passes a text that the scan passes in a step of its own. -/
theorem Agrees.advanceBy {f : Unit → Reading γ} {w : Scan δ} (text : List Char)
    (hascii : ∀ d ∈ text, IsAscii d) (h : text <+: s.rest) (hz : z s = w (s.after text.length))
    (hnext : Agrees source (s.after text.length) (f ()) w Q) :
  Agrees source s (advanceBy text.length >>= f) z Q
  := by
  obtain ⟨later, hrest⟩ := h
  refine Agrees.move (t := s.after text.length) ?_ (fun hat => hat.after _) hz hnext
  intro hat
  have hadvance := advanceBy_apply hat hrest.symm
  rwa [byteSize_of_isAscii hascii] at hadvance

/-- The cursor passes a character that the scan passes in a step of its own. -/
theorem Agrees.advance {f : Unit → Reading γ} {w : Scan δ} (hascii : IsAscii c)
    (h : s.rest.head? = some c) (hz : z s = w (s.after 1))
    (hnext : Agrees source (s.after 1) (f ()) w Q) :
  Agrees source s (advance >>= f) z Q
  := by
  obtain ⟨later, hrest⟩ := List.head?_eq_some_iff.mp h
  apply Agrees.advanceBy [c] _ _ hz hnext
  · simpa using hascii
  · rw [hrest]
    exact ⟨later, rfl⟩

/-- The longest run of a class is passed. -/
theorem Agrees.eatWhile {kind : UInt8 → Bool} {kind' : Char → Bool} {f : Unit → Reading γ}
    {g : List Char → Scan δ} (h : Reflects kind kind')
    (hnext : Agrees source (s.after (s.rest.takeWhile kind').length) (f ())
      (g (s.rest.takeWhile kind')) Q) :
  Agrees source s (eatWhile kind >>= f) (Scan.takeWhile kind' >>= g) Q
  := by
  apply Agrees.move (eatWhile_apply h) (fun hat => hat.after _) _ hnext
  rw [Scan.bind_apply, Scan.runs_takeWhile.mpr ⟨rfl, rfl⟩]

theorem mirrors_eatWhile {kind : UInt8 → Bool} {kind' : Char → Bool} (h : Reflects kind kind') :
  Mirrors source s (eatWhile kind) (discard (Scan.takeWhile kind'))
  := by
  intro hat
  refine .inl ⟨(), (), _, eatWhile_apply h hat, ?_, hat.after _, rfl, .after s _⟩
  rw [Scan.runs_discard]
  exact ⟨_, Scan.runs_takeWhile.mpr ⟨rfl, rfl⟩⟩

theorem mirrors_eatSpacing :
  Mirrors source s eatSpacing Scan.skipSpacing
  := mirrors_eatWhile reflects_isSpacing

/-- The cursor goes back to where it has been, and so does the scan, nothing having been found
in between. -/
theorem Agrees.moveBack {f : Unit → Reading γ} {g : PUnit → Scan δ} (hat : s.At source)
    (helements : t.elements = s.elements) (harena : t.arena = s.arena)
    (hnext : Agrees source s (f ()) (g ()) Q) :
  Agrees source t (moveTo s.pos >>= f) (set s >>= g) Q
  := by
  refine Agrees.move (t := s) ?_ (fun _ => hat) ?_ hnext
  · intro _
    rw [moveTo_apply hat, State.of, State.of, helements, harena]
  · rfl

/-! ### Searching -/

/-- The characters that are not among those that are looked for. -/
def isNoStop (stops : List Char) (c : Char) : Bool :=
  !stops.contains c

theorem reflects_isNoStop {stops : List Char} (h : ∀ d ∈ stops, IsAscii d) :
  Reflects (fun b => !(stops.map byte).contains b) (isNoStop stops)
  := by
  intro c b hb
  change (!(stops.map byte).contains b) = !stops.contains c
  congr 1
  rw [Bool.eq_iff_iff, List.contains_iff_mem, List.contains_iff_mem, List.mem_map]
  by_cases hc : IsAscii c
  · rw [utf8EncodeChar_of_isAscii hc, List.mem_singleton] at hb
    constructor
    · rintro ⟨d, hd, heq⟩
      rw [hb, byte_inj (h d hd) hc] at heq
      rwa [← heq]
    · intro hmem
      use c, hmem, hb.symm
  · have hle := le_of_mem_utf8EncodeChar hc hb
    constructor
    · rintro ⟨d, hd, rfl⟩
      exact absurd hle (byte_lt (h d hd))
    · intro hmem
      exact absurd (h c hmem) hc

/-- The first of several characters is looked for. -/
theorem seek_apply {stops : List Char} (h : ∀ d ∈ stops, IsAscii d) (hat : s.At source) :
  seek (stops.map byte) source (.of s) =
    .ok (lead (s.rest.dropWhile (isNoStop stops)),
      .of (s.after (s.rest.takeWhile (isNoStop stops)).length))
  := by
  have hpos : s.pos + (((encode s.rest).takeWhile fun b => !(stops.map byte).contains b).length) =
      (s.after (s.rest.takeWhile (isNoStop stops)).length).pos := by
    rw [(reflects_isNoStop h).takeWhile, length_encode,
      after_length_pos List.takeWhile_append_dropWhile.symm]
  rw [seek, bind_apply, ahead_apply hat]
  change (moveTo (s.pos + _) >>= fun _ => current) source (.of s) = _
  rw [hpos, bind_apply, moveTo_after_apply hat]
  change byteAhead 0 source (.of _) = _
  rw [byteAhead_apply (hat.after _), Scan.State.after_rest, Scan.drop_length_takeWhile]
  rfl

/-- A text up to the first of several characters. -/
theorem exists_plain (stops text : List Char) :
  ∃ plain later, text = plain ++ later ∧ (∀ c ∈ plain, c ∉ stops) ∧
    ∀ c ∈ later.head?, c ∈ stops
  := by
  use text.takeWhile (isNoStop stops), text.dropWhile (isNoStop stops)
  have hall := Scan.eq_takeWhile_iff.mp
    (congrArg (List.takeWhile (isNoStop stops)) (List.takeWhile_append_dropWhile (l := text)))
  simp only [isNoStop, Bool.not_eq_true', Bool.not_eq_false', List.contains_eq_mem,
    decide_eq_false_iff_not, decide_eq_true_eq] at hall
  exact ⟨List.takeWhile_append_dropWhile.symm, hall⟩

theorem takeWhile_isNoStop {stops plain : List Char} (hplain : ∀ c ∈ plain, c ∉ stops)
    (hlater : ∀ c ∈ later.head?, c ∈ stops) :
  (plain ++ later).takeWhile (isNoStop stops) = plain
  := by
  simpa [Scan.eq_takeWhile_iff, isNoStop] using ⟨hplain, hlater⟩

/-- The cursor goes to the first of several characters. -/
theorem Agrees.seek {stops plain : List Char} {f : UInt8 → Reading γ} {w : Scan δ}
    (hascii : ∀ d ∈ stops, IsAscii d) (hrest : s.rest = plain ++ later)
    (hplain : ∀ c ∈ plain, c ∉ stops) (hlater : ∀ c ∈ later.head?, c ∈ stops)
    (hz : z s = w (s.after plain.length))
    (hnext : Agrees source (s.after plain.length) (f (lead later)) w Q) :
  Agrees source s (seek (stops.map byte) >>= f) z Q
  := by
  have htake : s.rest.takeWhile (isNoStop stops) = plain := by
    rw [hrest, takeWhile_isNoStop hplain hlater]
  have hdrop : s.rest.dropWhile (isNoStop stops) = later := by
    rw [← Scan.drop_length_takeWhile, htake, hrest, List.drop_left]
  refine Agrees.move ?_ (fun hat => hat.after _) hz hnext
  intro hat
  rw [seek_apply hascii hat, htake, hdrop]

theorem mirrors_eatLine :
  Mirrors source s eatLine Scan.skipLine
  := by
  have hkind : isNoStop ['\n', '\r'] = fun c => !Scan.isLineBreak c := by
    funext c
    simp [isNoStop, Scan.isLineBreak]
  intro hat
  refine .inl ⟨(), (), _, ?_, Scan.runs_skipLine.mpr rfl, hat.after _, rfl, .after s _⟩
  change (Cursor.seek (['\n', '\r'].map byte) >>= fun _ => Pure.pure ()) source (.of s) = _
  rw [bind_apply, seek_apply (forall_isAscii (by decide)) hat, hkind]
  rfl

theorem mirrors_skipPast {text : List Char} (h : ∀ d ∈ text, IsAscii d) (hne : text ≠ []) :
  Mirrors source s (skipPast text) (Scan.skipPast text)
  := by
  intro hat
  cases hfound : Scan.offsetOf text s.rest with
  | none =>
    refine .inl ⟨false, false, s.after s.rest.length, ?_, ?_, hat.after _, rfl, .after s _⟩
    · have hend : byteSize source = (s.after s.rest.length).pos := by
        rw [byteSize_source hat, Scan.State.after, List.take_length]
      rw [skipPast, bind_apply, ahead_apply hat]
      simp only [firstMatch_encode h hne, hfound, Option.map_none]
      change (moveTo (byteSize source) >>= fun _ => Pure.pure false) source (.of s) = _
      rw [hend, bind_apply, moveTo_after_apply hat]
      rfl
    · rw [Scan.runs_skipPast]
      exact .inr ⟨hfound, rfl, rfl⟩
  | some before =>
    refine .inl ⟨true, true, s.after (before + text.length), ?_, ?_, hat.after _, rfl,
      .after s _⟩
    · obtain ⟨body, later, hrest, hbody, -⟩ := Scan.exists_append_of_offsetOf hfound
      have hstop : s.pos + byteSize (s.rest.take before) + (encode text).length =
          (s.after (before + text.length)).pos := by
        rw [← hbody, ← List.length_append, after_length_pos hrest, hrest, List.append_assoc,
          List.take_left, Text.byteSize_append, length_encode, Nat.add_assoc]
      rw [skipPast, bind_apply, ahead_apply hat]
      simp only [firstMatch_encode h hne, hfound, Option.map_some]
      change (moveTo (s.pos + byteSize (s.rest.take before) + (encode text).length) >>=
        fun _ => Pure.pure true) source (.of s) = _
      rw [hstop, bind_apply, moveTo_after_apply hat]
      rfl
    · rw [Scan.runs_skipPast]
      exact .inl ⟨before, hfound, rfl, rfl⟩

/-! ### Results -/

theorem agrees_peek (hascii : IsAscii c) (hrest : s.rest = c :: later) {f : UInt8 → Reading γ} :
  Agrees source s (peek >>= f) z Q ↔ Agrees source s (f (lead later)) z Q
  := by
  rw [peek, agrees_byteAhead, hrest, encode_cons_getElem? hascii]
  rfl

/-- Both refuse the source for something that started at an offset. -/
theorem Agrees.fail {α β : Type} {cause : SourceError.Cause} {start : Nat}
    {R : α → β → Scan.State → Prop} :
  Agrees source s (fail cause start) (Scan.fail cause start) R
  := Agrees.refused (fun _ => rfl) rfl

theorem mirrors_record {element : Element} :
  Mirrors source s (record element) (Scan.record element)
  := fun hat =>
    .inl ⟨(), (), { s with elements := s.elements.push element }, rfl, rfl, hat, rfl,
      .record s element⟩

theorem mirrors_store {shape : ExprShape} {span : Span} :
  Mirrors source s (store shape span) (Scan.store shape span)
  := fun hat =>
    .inl ⟨⟨s.arena.size, span⟩, ⟨s.arena.size, span⟩,
      { s with arena := s.arena.push ⟨shape, span⟩ }, rfl, rfl, hat, rfl, .store s ⟨shape, span⟩⟩

/-! ### Loops -/

/-- A scan goes forward in a round, and it passes something if the round is not the last one. -/
def Moves {σ : Type} (s t : Scan.State) : Round σ α → Prop
  | .again _ => Follows s t ∧ t.rest.length < s.rest.length
  | .done _ => Follows s t

/-- The scan after a round: the rest of the loop, if there is one. -/
def Round.goOn {m : Type → Type} [Monad m] {σ : Type} (loop : σ → m α) : Round σ α → m α
  | .again next => loop next
  | .done result => pure result

/-- A round of a loop and the scan that does the same, and then the rest of the loop. With every
round but the last one less is left. -/
theorem Agrees.rounds {σ : Type} {round : σ → Reading (Round σ γ)} {start : σ}
    {P : Round σ γ → β → Scan.State → Prop} {w : Scan β}
    (h : Agrees source s (round start) w P)
    (hdone : ∀ result b t, Runs w s b t → P (.done result) b t →
      Agrees source t (Pure.pure result) (g b) Q)
    (hagain : ∀ next b t, Runs w s b t → P (.again next) b t →
      Follows s t ∧ t.rest.length < s.rest.length ∧
        Agrees source t (Cursor.rounds round next) (g b) Q) :
  Agrees source s (Cursor.rounds round start) (w >>= g) Q
  := by
  intro hat
  obtain ⟨a, b, t, hx, hy, ht, hP⟩ | ⟨error, hx, hy⟩ := h hat
  · have hyapply : w s = .ok (b, t) := hy
    simp only [Runs, Scan.bind_apply, hyapply]
    rw [Cursor.rounds, hx]
    cases a with
    | done result => exact hdone result b t hy hP ht
    | again next =>
      obtain ⟨hfollows, hlt, hnext⟩ := hagain next b t hy hP
      have hpos := hfollows.pos_lt_iff.mpr hlt
      have hsize := byteSize_source ht
      have hleft : byteSize source - (State.of t).pos < byteSize source - (State.of s).pos := by
        change byteSize source - t.pos < byteSize source - s.pos
        omega
      simp only [if_pos hleft]
      exact hnext ht
  · right
    use error
    rw [Cursor.rounds, hx, Scan.bind_apply, hy]
    exact ⟨rfl, rfl⟩

/-- A round that passes some characters, and is not the last one. -/
theorem Agrees.again {σ : Type} {round : σ → Reading (Round σ γ)} {start next : σ} {count : Nat}
    {z w : Scan δ} (hne : s.rest ≠ []) (hcount : 0 < count)
    (h : Agrees source s (round start) (Scan.skip count) fun r _ _ => r = .again next)
    (hz : z s = w (s.after count))
    (hnext : Agrees source (s.after count) (Cursor.rounds round next) w Q) :
  Agrees source s (Cursor.rounds round start) z Q
  := by
  have hskip : Runs (Scan.skip count) s () (s.after count) := Scan.runs_skip.mpr rfl
  have heq : z s = (Scan.skip count >>= fun _ => w) s := by
    rw [hz, Scan.bind_apply, hskip]
  rw [Agrees.congr_right heq]
  apply h.rounds
  · intro result u t _ hr
    cases hr
  · intro next' u t ht hr
    cases hr
    obtain rfl := Scan.runs_skip.mp ht
    exact ⟨.after s count, Scan.length_after_lt hne hcount, hnext⟩

/-- The last round. -/
theorem Agrees.last {σ : Type} {round : σ → Reading (Round σ γ)} {start : σ} {z : Scan δ}
    (h : Agrees source s (round start) z fun r b t => ∃ a, r = .done a ∧ Q a b t) :
  Agrees source s (Cursor.rounds round start) z Q
  := by
  rw [← bind_pure z]
  apply h.rounds
  · rintro result b t - ⟨a, heq, hQ⟩
    cases heq
    exact Agrees.pure hQ
  · rintro next b t - ⟨a, heq, -⟩
    cases heq

/-- A loop and a scan that goes on after a round as the loop does. -/
theorem Mirrors.loop {σ : Type} {round : σ → Reading (Round σ γ)} {start : σ}
    {w : Scan (Round σ γ)} {loop : σ → Scan γ}
    (h : Agrees source s (round start) w fun r r' t => r = r' ∧ Moves s t r)
    (hagain : ∀ next t, Follows s t → t.rest.length < s.rest.length →
      Mirrors source t (Cursor.rounds round next) (loop next)) :
  Mirrors source s (Cursor.rounds round start) (w >>= Round.goOn loop)
  := by
  apply h.rounds
  · rintro result _ t - ⟨rfl, hfollows⟩
    exact .pure ⟨rfl, hfollows⟩
  · rintro next _ t - ⟨rfl, hfollows, hlt⟩
    exact ⟨hfollows, hlt, (hagain next t hfollows hlt).follow hfollows⟩

end UtilityClasses.Cursor
