import LlvmAsm.Proofs.Text.Names

/-!
# `Proofs.Text.Escapes` — the grammar of quoted bodies

`unescape` reads the body of a quoted string from left to right. A byte other than a backslash
stands for itself, `\\` for one backslash, and a backslash before two hex digits (of either case)
for the byte they spell; any other backslash is refused, at its byte offset. This module states
that grammar on its own, as the relation `Decodes body out`, and the refusal as `RefusedAt body i`
(the body decodes up to a backslash at offset `i` that opens neither form), and shows that the
decoder follows it exactly:

* `unescapeBytes_eq_ok_iff`: decoding succeeds with `out` exactly when the body decodes to `out`;
* `unescapeBytes_eq_error_iff`: decoding is refused at `i` exactly when the first bad escape of the
  body is at `i`, so no other failure exists;
* `quote_unescape_codec`: quoting writes a printable body without quotes that decodes back to the
  bytes, and the two statements above on the bytes of any text, with the refusal's wording.
-/

namespace LlvmAsm.Text

/-- A quoted body and the bytes it stands for: a byte other than a backslash stands for itself,
`\\` for one backslash, and a backslash before two hex digits for the byte they spell. -/
inductive Decodes : List UInt8 → List UInt8 → Prop
  | nil : Decodes [] []
  | plain {b : UInt8} {body out : List UInt8} (hb : b ≠ 92) :
      Decodes body out → Decodes (b :: body) (b :: out)
  | backslash {body out : List UInt8} : Decodes body out → Decodes (92 :: 92 :: body) (92 :: out)
  | hex {h l : UInt8} {vh vl : Nat} {body out : List UInt8} (hh : hexValue? h = some vh)
      (hl : hexValue? l = some vl) :
      Decodes body out → Decodes (92 :: h :: l :: body) ((vh * 16 + vl).toUInt8 :: out)

/-- The bytes after a backslash open an escape: a second backslash, or two hex digits. -/
def OpensEscape (rest : List UInt8) : Prop :=
  rest.head? = some 92 ∨ ∃ h l t, rest = h :: l :: t ∧ (hexValue? h).isSome ∧ (hexValue? l).isSome

/-- Decoding is refused at byte `i`: the body decodes up to offset `i`, where a backslash stands
that opens no escape. -/
def RefusedAt (body : List UInt8) (i : Nat) : Prop :=
  ∃ pre rest out, body = pre ++ 92 :: rest ∧ pre.length = i ∧ Decodes pre out ∧ ¬ OpensEscape rest

/-- A hex digit is no backslash. -/
theorem ne_backslash_of_hexValue? {b : UInt8} {v : Nat} (h : hexValue? b = some v) : b ≠ 92 := by
  rintro rfl
  simp [hexValue?] at h

/-- A backslash opening no escape is the first bad escape of the text it starts. -/
theorem refusedAt_head {rest : List UInt8} (h : ¬ OpensEscape rest) : RefusedAt (92 :: rest) 0 :=
  ⟨[], rest, [], rfl, rfl, .nil, h⟩

/-! ## One step of the decoder -/

theorem unescapeFrom_plain {b : UInt8} (hb : b ≠ 92) (off : Nat) (rest : List UInt8) :
    unescapeFrom off (b :: rest) = (unescapeFrom (off + 1) rest).map (b :: ·) := by
  rw [unescapeFrom.eq_def]
  simp only [bne_iff_ne, ne_eq, hb, not_false_eq_true, if_true]

theorem unescapeFrom_backslash (off : Nat) (rest : List UInt8) :
    unescapeFrom off (92 :: 92 :: rest) = (unescapeFrom (off + 2) rest).map (92 :: ·) := by
  rw [unescapeFrom.eq_def]
  simp only [bne_self_eq_false, Bool.false_eq_true, if_false, beq_self_eq_true, if_true]

theorem unescapeFrom_hex {h l : UInt8} {vh vl : Nat} (hh : hexValue? h = some vh)
    (hl : hexValue? l = some vl) (off : Nat) (rest : List UInt8) :
    unescapeFrom off (92 :: h :: l :: rest) =
      (unescapeFrom (off + 3) rest).map ((vh * 16 + vl).toUInt8 :: ·) := by
  rw [unescapeFrom.eq_def]
  simp only [bne_self_eq_false, Bool.false_eq_true, if_false, beq_iff_eq,
    ne_backslash_of_hexValue? hh, hh, hl]

/-- A backslash that opens no escape is refused where it stands. -/
theorem unescapeFrom_refused {rest : List UInt8} (h : ¬ OpensEscape rest) (off : Nat) :
    unescapeFrom off (92 :: rest) = .error ⟨off⟩ := by
  match rest with
  | [] => rfl
  | [c] =>
    have hc : c ≠ 92 := fun hc => h (.inl (by rw [hc]; rfl))
    simp [unescapeFrom, hc]
  | c :: d :: t =>
    have hc : c ≠ 92 := fun hc => h (.inl (by rw [hc]; rfl))
    have hhex : ¬ ((hexValue? c).isSome ∧ (hexValue? d).isSome) :=
      fun hs => h (.inr ⟨c, d, t, rfl, hs⟩)
    rw [unescapeFrom.eq_def]
    simp only [bne_self_eq_false, Bool.false_eq_true, if_false, beq_iff_eq, hc]
    -- the two hex tests are made together, so one missing digit refuses the escape
    cases hvc : hexValue? c <;> cases hvd : hexValue? d <;> simp_all

/-! ## Decoding follows the grammar -/

theorem unescapeFrom_of_decodes {body out : List UInt8} (h : Decodes body out) (off : Nat) :
    unescapeFrom off body = .ok out := by
  induction h generalizing off with
  | nil => rfl
  | plain hb _ ih =>
    rw [unescapeFrom_plain hb, ih]
    rfl
  | backslash _ ih =>
    rw [unescapeFrom_backslash, ih]
    rfl
  | hex hh hl _ ih =>
    rw [unescapeFrom_hex hh hl, ih]
    rfl

theorem decodes_of_unescapeFrom {off : Nat} {body out : List UInt8}
    (h : unescapeFrom off body = .ok out) : Decodes body out := by
  fun_induction unescapeFrom off body generalizing out with
  | case1 => cases h; exact .nil
  | case2 off b rest hb ih =>
    cases hr : unescapeFrom (off + 1) rest with
    | error e => rw [hr] at h; cases h
    | ok tail =>
      rw [hr] at h
      cases h
      exact .plain (bne_iff_ne.mp hb) (ih hr)
  | case3 => cases h
  | case4 off b hb c rest hc ih =>
    obtain rfl : b = 92 := by simpa using hb
    obtain rfl : c = 92 := by simpa using hc
    cases hr : unescapeFrom (off + 2) rest with
    | error e => rw [hr] at h; cases h
    | ok tail =>
      rw [hr] at h
      cases h
      exact .backslash (ih hr)
  | case5 => cases h
  | case6 off b hb c _ d rest vh vl hl hh ih =>
    obtain rfl : b = 92 := by simpa using hb
    cases hr : unescapeFrom (off + 3) rest with
    | error e => rw [hr] at h; cases h
    | ok tail =>
      rw [hr] at h
      cases h
      exact .hex hh hl (ih hr)
  | case7 => cases h

/-- **Decoding succeeds exactly on the bodies the grammar reads**, with the bytes they stand for. -/
theorem unescapeBytes_eq_ok_iff {body out : List UInt8} :
    unescapeBytes body = .ok out ↔ Decodes body out :=
  ⟨decodes_of_unescapeFrom, fun h => unescapeFrom_of_decodes h 0⟩

/-! ## The refused escape -/

theorem unescapeFrom_of_refusedAt {body : List UInt8} {i : Nat} (h : RefusedAt body i) (off : Nat) :
    unescapeFrom off body = .error ⟨off + i⟩ := by
  obtain ⟨pre, rest, out, rfl, rfl, hd, hopen⟩ := h
  -- the induction walks the prefix that decodes; the refusal waits behind it
  induction hd generalizing off with
  | nil => exact unescapeFrom_refused hopen off
  | @plain b pre out hb _ ih =>
    rw [List.cons_append, unescapeFrom_plain hb, ih, List.length_cons,
      show off + 1 + pre.length = off + (pre.length + 1) by omega]
    rfl
  | @backslash pre out _ ih =>
    rw [List.cons_append, List.cons_append, unescapeFrom_backslash, ih, List.length_cons,
      List.length_cons, show off + 2 + pre.length = off + (pre.length + 1 + 1) by omega]
    rfl
  | @hex h l vh vl pre out hh hl _ ih =>
    rw [List.cons_append, List.cons_append, List.cons_append, unescapeFrom_hex hh hl, ih,
      List.length_cons, List.length_cons, List.length_cons,
      show off + 3 + pre.length = off + (pre.length + 1 + 1 + 1) by omega]
    rfl

/-- A refused prefix stays refused behind a byte that stands for itself. -/
theorem RefusedAt.plain {b : UInt8} {body : List UInt8} {i : Nat} (hb : b ≠ 92)
    (h : RefusedAt body i) : RefusedAt (b :: body) (i + 1) := by
  obtain ⟨pre, rest, out, rfl, rfl, hd, hopen⟩ := h
  exact ⟨b :: pre, rest, b :: out, rfl, rfl, .plain hb hd, hopen⟩

theorem refusedAt_of_unescapeFrom {off : Nat} {body : List UInt8} {e : BadEscape}
    (h : unescapeFrom off body = .error e) : ∃ i, e.offset = off + i ∧ RefusedAt body i := by
  fun_induction unescapeFrom off body with
  | case1 => cases h
  | case2 off b rest hb ih =>
    cases hr : unescapeFrom (off + 1) rest with
    | ok tail => rw [hr] at h; cases h
    | error e' =>
      rw [hr] at h
      cases h
      obtain ⟨i, hi, hrest⟩ := ih hr
      exact ⟨i + 1, by omega, hrest.plain (bne_iff_ne.mp hb)⟩
  | case3 off b hb =>
    obtain rfl : b = 92 := by simpa using hb
    cases h
    exact ⟨0, rfl, refusedAt_head (by simp [OpensEscape])⟩
  | case4 off b hb c rest hc ih =>
    obtain rfl : b = 92 := by simpa using hb
    obtain rfl : c = 92 := by simpa using hc
    cases hr : unescapeFrom (off + 2) rest with
    | ok tail => rw [hr] at h; cases h
    | error e' =>
      rw [hr] at h
      cases h
      obtain ⟨i, hi, pre, rest', out, rfl, rfl, hd, hopen⟩ := ih hr
      exact ⟨pre.length + 2, by omega, 92 :: 92 :: pre, rest', 92 :: out, rfl, rfl, .backslash hd,
        hopen⟩
  | case5 off b hb c hc =>
    obtain rfl : b = 92 := by simpa using hb
    have hc' : c ≠ 92 := by simpa using hc
    cases h
    exact ⟨0, rfl, refusedAt_head (by simp [OpensEscape, hc'])⟩
  | case6 off b hb c _ d rest vh vl hl hh ih =>
    obtain rfl : b = 92 := by simpa using hb
    cases hr : unescapeFrom (off + 3) rest with
    | ok tail => rw [hr] at h; cases h
    | error e' =>
      rw [hr] at h
      cases h
      obtain ⟨i, hi, pre, rest', out, rfl, rfl, hd, hopen⟩ := ih hr
      exact ⟨pre.length + 3, by omega, 92 :: c :: d :: pre, rest', _ :: out, rfl, rfl,
        .hex hh hl hd, hopen⟩
  | case7 off b hb c hc d rest hhex =>
    obtain rfl : b = 92 := by simpa using hb
    have hc' : c ≠ 92 := by simpa using hc
    cases h
    refine ⟨0, rfl, refusedAt_head ?_⟩
    rintro (hh | ⟨c', d', t, heq, hvc, hvd⟩)
    · exact hc' (by simpa using hh)
    · obtain ⟨rfl, rfl, rfl⟩ : c = c' ∧ d = d' ∧ rest = t := by simpa using heq
      obtain ⟨vh, hvh⟩ := Option.isSome_iff_exists.mp hvc
      obtain ⟨vl, hvl⟩ := Option.isSome_iff_exists.mp hvd
      exact hhex vh vl hvh hvl

/-- **Decoding is refused exactly at the first bad escape**: a backslash that opens neither `\\`
nor two hex digits, after a prefix that decodes. -/
theorem unescapeBytes_eq_error_iff {body : List UInt8} {i : Nat} :
    unescapeBytes body = .error ⟨i⟩ ↔ RefusedAt body i := by
  constructor
  · intro h
    obtain ⟨j, hj, hrefused⟩ := refusedAt_of_unescapeFrom h
    rw [show i = j by simpa using hj]
    exact hrefused
  · intro h
    rw [unescapeBytes, unescapeFrom_of_refusedAt h 0, Nat.zero_add]

/-! ## The codec -/

/-- **Quoting and decoding form an exact codec.** Quoting any bytes writes a body of printable
ASCII other than `"` between two quotes, and the body decodes back to the bytes. Decoding any text
succeeds exactly when its bytes follow the grammar of bodies, with the bytes they stand for, and
otherwise reports `invalid escape at byte i` for the first backslash that opens no escape. -/
theorem quote_unescape_codec :
    (∀ d : List UInt8, ∃ body : String, quote d = "\"" ++ body ++ "\"" ∧
      (∀ x ∈ body.toUTF8.toList, 0x20 ≤ x.toNat ∧ x.toNat ≤ 0x7E ∧ x ≠ 34) ∧
      unescape body = .ok d) ∧
    (∀ (s : String) (out : List UInt8), unescape s = .ok out ↔ Decodes s.toUTF8.toList out) ∧
    (∀ (s msg : String), (unescape s).mapError BadEscape.message = .error msg ↔
      ∃ i, RefusedAt s.toUTF8.toList i ∧ msg = "invalid escape at byte " ++ toString i) := by
  refine ⟨fun d => ?_, fun s out => unescapeBytes_eq_ok_iff, fun s msg => ?_⟩
  · have hascii : ∀ c ∈ quoteBody d, c.toNat < 128 := fun c hc => (quoteBody_ascii c hc).1
    refine ⟨String.ofList (quoteBody d), ?_, ?_, unescape_quoteBody d⟩
    · rw [quote, ← String.ofList_append, ← String.ofList_append]
      rfl
    · rw [utf8_ofList_ascii hascii]
      intro x hx
      obtain ⟨c, hc, rfl⟩ := List.mem_map.mp hx
      obtain ⟨hlo, hhi, hq⟩ := quoteBody_printable c hc
      rw [asciiByte_toNat (hascii c hc)]
      refine ⟨hlo, hhi, fun h34 => hq ?_⟩
      have := congrArg UInt8.toNat h34
      rw [asciiByte_toNat (hascii c hc)] at this
      exact Char.toNat_inj.mp this
  · cases hs : unescape s with
    | ok out =>
      simp only [Except.mapError, reduceCtorEq, false_iff, not_exists, not_and]
      intro i hi _
      have he : unescape s = .error ⟨i⟩ := unescapeBytes_eq_error_iff.mpr hi
      rw [hs] at he
      cases he
    | error e =>
      have hrefused : RefusedAt s.toUTF8.toList e.offset := unescapeBytes_eq_error_iff.mp hs
      constructor
      · intro h
        cases h
        exact ⟨e.offset, hrefused, rfl⟩
      · rintro ⟨i, hi, rfl⟩
        -- the refusal is unique, since the decoder gives one answer
        have he : unescape s = .error ⟨i⟩ := unescapeBytes_eq_error_iff.mpr hi
        rw [hs] at he
        cases he
        rfl

end LlvmAsm.Text
