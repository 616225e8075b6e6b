import LlvmAsm.Proofs.Reading.Tokens

/-!
# `Proofs.Reading.Progress` — what one reading step can do, on any text

Reading is total in a strong sense: whatever the text, a reader either succeeds with the cursor
moved forward over that text, or fails at a position of it, and no failure is for want of the
nesting bound. `Moves b x c k` says this of the run of `x` from `c`:

* a success ends at a cursor reached from `c` (`Cursor.Reaches`), at least `k` characters on;
* a failure is reported at the position of a cursor reached from the base `b`, with a message
  other than the one `exhausted` gives.

The base lets a rule go back to where it started and fail there (a word that starts no constant).
`Progress x c k` is the case `b = c`: what every reader promises of itself.

Rules are followed step by step with `Moves.bind`, which also hands the next step the facts it
needs (where the cursor is, how much was read), and with the steps that only look
(`Moves.peek_bind`, `Moves.get_bind`, `Moves.skipBlanks_bind`, `Moves.found_bind`). The second
half proves `Progress` for the primitives of the cursor; those that always read something say so
with `k = 1`.
-/

namespace LlvmAsm.Ast

namespace Cursor

/-- `c'` is `c` moved forward over some of its characters. -/
def Reaches (c c' : Cursor) : Prop := ∃ n, c' = c.advance n

theorem Reaches.refl (c : Cursor) : c.Reaches c := ⟨0, rfl⟩

theorem Reaches.trans {c₁ c₂ c₃ : Cursor} (h₁ : c₁.Reaches c₂) (h₂ : c₂.Reaches c₃) :
    c₁.Reaches c₃ := by
  obtain ⟨m, rfl⟩ := h₁
  obtain ⟨n, rfl⟩ := h₂
  exact ⟨m + n, (advance_advance c₁ m n)⟩

theorem reaches_advance (c : Cursor) (n : Nat) : c.Reaches (c.advance n) := ⟨n, rfl⟩

theorem length_rest_advance (c : Cursor) (n : Nat) :
    (c.advance n).rest.length = c.rest.length - n := by
  rw [rest_advance, List.length_drop]

theorem Reaches.length_le {c c' : Cursor} (h : c.Reaches c') : c'.rest.length ≤ c.rest.length := by
  obtain ⟨n, rfl⟩ := h
  rw [length_rest_advance]
  omega

/-- A blank is one byte long. -/
theorem utf8Size_of_isBlank {ch : Char} (h : isBlank ch = true) : ch.utf8Size = 1 := by
  simp only [isBlank, Bool.or_eq_true, decide_eq_true_eq] at h
  rcases h with (((rfl | rfl) | rfl) | rfl) | rfl <;> rfl

/-- Skipping blanks and comments moves forward over the text: each character skipped is moved
past by its size (the ones skipped outside comments are one byte long). -/
theorem reaches_skipBlanksFrom (nl : Bool) (rest : List Char) :
    ∀ (ic : Bool) (pos : Nat), (⟨rest, pos⟩ : Cursor).Reaches (skipBlanksFrom nl ic rest pos) := by
  induction rest with
  | nil => exact fun _ pos => ⟨0, by rw [skipBlanksFrom]; rfl⟩
  | cons ch rest ih =>
    intro ic pos
    have hpast : ∀ ic', (⟨ch :: rest, pos⟩ : Cursor).Reaches
        (skipBlanksFrom nl ic' rest (pos + ch.utf8Size)) :=
      fun ic' => (reaches_advance _ 1).trans (ih ic' _)
    have hstay : (⟨ch :: rest, pos⟩ : Cursor).Reaches ⟨ch :: rest, pos⟩ := Reaches.refl _
    rw [skipBlanksFrom]
    split_ifs with hc hn hnl hs hb hstop
    · exact hn ▸ hpast false
    · exact hstay
    · exact hpast true
    · exact hs ▸ hpast true
    · exact hstay
    · rw [← utf8Size_of_isBlank hb]
      exact hpast false
    · exact hstay

theorem reaches_skipBlanks (c : Cursor) (nl : Bool) : c.Reaches (c.skipBlanks nl) :=
  reaches_skipBlanksFrom nl c.rest false c.pos

theorem length_le_of_head? {l : List Char} {ch : Char} (h : l.head? = some ch) : 1 ≤ l.length := by
  obtain ⟨t, rfl⟩ := List.head?_eq_some_iff.mp h
  simp

end Cursor

namespace Reader

open Cursor

variable {α β : Type}

/-! ## Runs of a bind -/

theorem run_bind_error {x : Reader α} {f : α → Reader β} {c : Cursor} {e : ReadError}
    (h : x.run c = .error e) : (x >>= f).run c = .error e := by
  simp only [StateT.run_bind, h]
  rfl

/-- A bind succeeds when both its steps do, one after the other. -/
theorem run_bind_eq_ok {x : Reader α} {f : α → Reader β} {c : Cursor} {r : β × Cursor}
    (h : (x >>= f).run c = .ok r) : ∃ a c', x.run c = .ok (a, c') ∧ (f a).run c' = .ok r := by
  cases hx : x.run c with
  | error e => rw [run_bind_error hx] at h; cases h
  | ok p =>
    obtain ⟨a, c'⟩ := p
    exact ⟨a, c', rfl, by rwa [run_bind_ok hx] at h⟩

/-- A bind fails when its first step does, or when the second does after the first. -/
theorem run_bind_eq_error {x : Reader α} {f : α → Reader β} {c : Cursor} {e : ReadError}
    (h : (x >>= f).run c = .error e) :
    x.run c = .error e ∨ ∃ a c', x.run c = .ok (a, c') ∧ (f a).run c' = .error e := by
  cases hx : x.run c with
  | error e' =>
    rw [run_bind_error hx] at h
    cases h
    exact .inl rfl
  | ok p =>
    obtain ⟨a, c'⟩ := p
    exact .inr ⟨a, c', rfl, by rwa [run_bind_ok hx] at h⟩

/-! ## Moving forward over the text -/

/-- The run of `x` from `c`, judged from the base `b`: a success ends at a cursor reached from `c`
at least `k` characters on, and a failure is reported at a position reached from `b`, never for
want of nesting bound. -/
structure Moves (b : Cursor) (x : Reader α) (c : Cursor) (k : Nat) : Prop where
  ok : ∀ a c', x.run c = .ok (a, c') → c.Reaches c' ∧ c'.rest.length + k ≤ c.rest.length
  error : ∀ e, x.run c = .error e →
    e.message ≠ "input nests too deeply" ∧ ∃ c', b.Reaches c' ∧ e.pos = c'.pos

/-- What a reader promises of each of its runs: it moves forward from where it starts. -/
abbrev Progress (x : Reader α) (c : Cursor) (k : Nat) : Prop := Moves c x c k

namespace Moves

variable {b c : Cursor} {k : Nat} {x : Reader α}

theorem mono {j : Nat} (h : Moves b x c k) (hj : j ≤ k) : Moves b x c j where
  ok a c' hx := by
    obtain ⟨hreach, hlen⟩ := h.ok a c' hx
    exact ⟨hreach, by omega⟩
  error := h.error

/-- A run from a cursor reached from `b` is judged from `b` as well. -/
theorem lift (h : Progress x c k) (hbc : b.Reaches c) : Moves b x c k where
  ok := h.ok
  error e hx := by
    obtain ⟨hmsg, c', hreach, hpos⟩ := h.error e hx
    exact ⟨hmsg, c', hbc.trans hreach, hpos⟩

theorem of_run_ok {a : α} {c' : Cursor} (hrun : x.run c = .ok (a, c')) (hcc : c.Reaches c')
    (hlen : c'.rest.length + k ≤ c.rest.length) : Moves b x c k where
  ok a' c'' hx := by
    rw [hrun] at hx
    cases hx
    exact ⟨hcc, hlen⟩
  error e hx := by
    rw [hrun] at hx
    cases hx

/-- A run that is another run from a cursor further on moves as that one does. -/
theorem of_run_eq {y : Reader α} {c' : Cursor} (hrun : x.run c = y.run c') (hcc : c.Reaches c')
    (h : Moves b y c' k) : Moves b x c k where
  ok a c'' hx := by
    obtain ⟨hreach, hlen⟩ := h.ok a c'' (hrun ▸ hx)
    have := hcc.length_le
    exact ⟨hcc.trans hreach, by omega⟩
  error e hx := h.error e (hrun ▸ hx)

protected theorem pure (a : α) : Moves b (pure a) c 0 :=
  of_run_ok rfl (Reaches.refl c) (Nat.le_refl _)

protected theorem fail {msg : String} (hbc : b.Reaches c) (hmsg : msg ≠ "input nests too deeply") :
    Moves b (fail msg : Reader α) c k where
  ok a c' hx := by cases hx
  error e hx := by
    cases hx
    exact ⟨hmsg, c, hbc, rfl⟩

theorem fail_bind {msg : String} {f : α → Reader β} (hbc : b.Reaches c)
    (hmsg : msg ≠ "input nests too deeply") : Moves b (fail msg >>= f) c k :=
  of_run_eq (y := (fail msg : Reader β)) (run_bind_error rfl) (Reaches.refl c) (Moves.fail hbc hmsg)

/-- Following a rule one step: the first step moves `j` characters from `c`, and the next one
moves `k` more from wherever the first ended, still judged from `b`. -/
theorem bind_add {f : α → Reader β} {j : Nat} (hbc : b.Reaches c) (hx : Progress x c j)
    (hf : ∀ a c', x.run c = .ok (a, c') → b.Reaches c' → c'.rest.length + j ≤ c.rest.length →
      Moves b (f a) c' k) : Moves b (x >>= f) c (j + k) where
  ok r c'' h := by
    obtain ⟨a, c', hx1, hf1⟩ := run_bind_eq_ok h
    obtain ⟨hreach, hlen⟩ := hx.ok a c' hx1
    obtain ⟨hreach', hlen'⟩ := (hf a c' hx1 (hbc.trans hreach) hlen).ok r c'' hf1
    exact ⟨hreach.trans hreach', by omega⟩
  error e h := by
    rcases run_bind_eq_error h with hx1 | ⟨a, c', hx1, hf1⟩
    · exact (hx.lift hbc).error e hx1
    · obtain ⟨hreach, hlen⟩ := hx.ok a c' hx1
      exact (hf a c' hx1 (hbc.trans hreach) hlen).error e hf1

/-- A step whose reading is what counts, followed by steps that may read nothing. -/
theorem bind {f : α → Reader β} (hbc : b.Reaches c) (hx : Progress x c k)
    (hf : ∀ a c', x.run c = .ok (a, c') → b.Reaches c' → c'.rest.length + k ≤ c.rest.length →
      Moves b (f a) c' 0) : Moves b (x >>= f) c k :=
  bind_add hbc hx hf

/-- A step followed by the steps whose reading is what counts. -/
theorem bind_tail {f : α → Reader β} {j : Nat} (hbc : b.Reaches c) (hx : Progress x c j)
    (hf : ∀ a c', x.run c = .ok (a, c') → b.Reaches c' → c'.rest.length + j ≤ c.rest.length →
      Moves b (f a) c' k) : Moves b (x >>= f) c k :=
  (bind_add hbc hx hf).mono (Nat.le_add_left k j)

theorem pure_bind {a : α} {f : α → Reader β} (h : Moves b (f a) c k) :
    Moves b (pure a >>= f) c k :=
  of_run_eq (run_bind_ok (run_pure a c)) (Reaches.refl c) h

/-- Going back to a cursor reached from the base and failing there. -/
theorem set_fail {start : Cursor} {msg : String} (hstart : b.Reaches start)
    (hmsg : msg ≠ "input nests too deeply") :
    Moves b ((set start : Reader PUnit) >>= fun _ => (fail msg : Reader β)) c k where
  ok a c' hx := by cases hx
  error e hx := by
    cases hx
    exact ⟨hmsg, start, hstart, rfl⟩

protected theorem map {f : α → β} (hbc : b.Reaches c) (hx : Progress x c k) :
    Moves b (f <$> x) c k := by
  rw [map_eq_pure_bind]
  exact bind hbc hx fun _ _ _ _ _ => Moves.pure _

theorem get_bind {f : Cursor → Reader β} (h : Moves b (f c) c k) : Moves b (get >>= f) c k :=
  of_run_eq (run_bind_ok (run_get c)) (Reaches.refl c) h

theorem peek_bind {f : Option Char → Reader β} (h : Moves b (f c.rest.head?) c k) :
    Moves b (peek >>= f) c k :=
  of_run_eq (run_bind_ok (run_peek c)) (Reaches.refl c) h

theorem skipBlanks_bind {nl : Bool} {f : Unit → Reader β} (hbc : b.Reaches c)
    (h : b.Reaches (c.skipBlanks nl) → Moves b (f ()) (c.skipBlanks nl) k) :
    Moves b (skipBlanks nl >>= f) c k :=
  of_run_eq (run_bind_ok (run_skipBlanks nl c)) (reaches_skipBlanks c nl)
    (h (hbc.trans (reaches_skipBlanks c nl)))

end Moves

/-! ## The primitives of the cursor -/

variable (c : Cursor)

/-- Moving past `n` characters moves past as many as there are, up to `n`. -/
theorem progress_advance (n : Nat) : Progress (advance n) c (min n c.rest.length) :=
  Moves.of_run_ok (run_advance n c) (reaches_advance c n) (by rw [length_rest_advance]; omega)

/-- Moving past a character that is there reads it. -/
theorem progress_advance_of_head? {n : Nat} {ch : Char} (h : c.rest.head? = some ch) (hn : 1 ≤ n) :
    Progress (advance n) c 1 :=
  (progress_advance c n).mono (by have := length_le_of_head? h; omega)

/-- What the cursor sees is described without moving. -/
theorem run_found : ∃ s, found.run c = .ok (s, c) := by
  rw [found, run_bind_ok (run_peek c)]
  split
  · exact ⟨_, rfl⟩
  · exact ⟨_, rfl⟩

theorem Moves.found_bind {b : Cursor} {k : Nat} {f : String → Reader β}
    (h : ∀ s, Moves b (f s) c k) : Moves b (found >>= f) c k := by
  obtain ⟨s, hs⟩ := run_found c
  exact Moves.of_run_eq (run_bind_ok hs) (Reaches.refl c) (h s)

/-- A message that does not start as the exhaustion one does is not it. -/
theorem append_ne_nests {p : String} (s : String)
    (hp : p.toList.isPrefixOf "input nests too deeply".toList = false) :
    p ++ s ≠ "input nests too deeply" := by
  intro h
  have hprefix : p.toList <+: "input nests too deeply".toList :=
    ⟨s.toList, by rw [← String.toList_append, h]⟩
  rw [← List.isPrefixOf_iff_prefix, hp] at hprefix
  exact Bool.false_ne_true hprefix

/-- Most messages are a text, a word read, and a closing text. -/
theorem append_append_ne_nests {p : String} (s t : String)
    (hp : p.toList.isPrefixOf "input nests too deeply".toList = false) :
    p ++ s ++ t ≠ "input nests too deeply" := by
  rw [String.append_assoc]
  exact append_ne_nests _ hp

theorem progress_atLineEnd : Progress atLineEnd c 0 := by
  rw [atLineEnd]
  exact Moves.skipBlanks_bind (Reaches.refl c) fun _ => Moves.peek_bind (Moves.pure _)

theorem progress_tryChar (ch : Char) : Progress (tryChar ch) c 0 := by
  rw [tryChar]
  refine Moves.skipBlanks_bind (Reaches.refl c) fun hbc => Moves.peek_bind ?_
  split
  · exact Moves.bind hbc ((progress_advance _ 1).mono (Nat.zero_le _)) fun _ _ _ _ _ =>
      Moves.pure _
  · exact Moves.pure _

/-- `expect` reads the character it expects, or fails. -/
theorem progress_expect (ch : Char) : Progress (expect ch) c 1 := by
  have hskip := reaches_skipBlanks c true
  by_cases hhit : (c.skipBlanks true).rest.head? = some ch
  · refine Moves.of_run_ok (run_expect hhit) (hskip.trans (reaches_advance _ 1)) ?_
    have := length_le_of_head? hhit
    have := hskip.length_le
    rw [length_rest_advance]
    omega
  · rw [expect]
    refine Moves.of_run_eq (run_bind_ok (run_tryChar_miss hhit)) hskip ?_
    refine Moves.found_bind _ fun s => Moves.fail hskip ?_
    rw [String.append_assoc]
    exact append_append_ne_nests _ _ (by decide)

/-- The word at the cursor, if any, is made of characters that are there. -/
theorem run_wordAt_cases : wordAt.run c = .ok (none, c) ∨ ∃ w, wordAt.run c = .ok (some w, c) ∧
    1 ≤ w.length ∧ w.length ≤ c.rest.length := by
  have hrun : wordAt.run c = .ok (if (c.rest.takeWhile isWordChar).isEmpty then none
      else some (String.ofList (c.rest.takeWhile isWordChar)), c) := rfl
  by_cases hw : (c.rest.takeWhile isWordChar).isEmpty
  · exact .inl (by rw [hrun, if_pos hw])
  · refine .inr ⟨_, by rw [hrun, if_neg hw], ?_, ?_⟩
    · rw [String.length_ofList]
      cases h : c.rest.takeWhile isWordChar with
      | nil => rw [h] at hw; exact absurd rfl hw
      | cons x xs => simp
    · rw [String.length_ofList]
      exact (List.takeWhile_prefix _).length_le

theorem run_peekWord_cases : peekWord.run c = .ok (none, c.skipBlanks true) ∨
    ∃ w, peekWord.run c = .ok (some w, c.skipBlanks true) ∧
      1 ≤ w.length ∧ w.length ≤ (c.skipBlanks true).rest.length := by
  rw [peekWord, run_bind_ok (run_skipBlanks true c)]
  exact run_wordAt_cases _

/-- A word seen at the cursor is there, and not empty. -/
theorem run_wordAt_some {w : String} {c' : Cursor} (h : wordAt.run c = .ok (some w, c')) :
    c' = c ∧ 1 ≤ w.length ∧ w.length ≤ c.rest.length := by
  rcases run_wordAt_cases c with h' | ⟨w', h', hpos, hle⟩
  · rw [h'] at h
    cases h
  · rw [h'] at h
    cases h
    exact ⟨rfl, hpos, hle⟩

/-- Moving on from where a word was seen reads a character of it. -/
theorem progress_advance_of_wordAt {c₀ : Cursor} {w : String} {n : Nat}
    (h : wordAt.run c₀ = .ok (some w, c)) (hn : 1 ≤ n) : Progress (advance n) c 1 := by
  obtain ⟨rfl, hpos, hle⟩ := run_wordAt_some c₀ h
  exact (progress_advance c n).mono (by omega)

theorem progress_wordAt : Progress wordAt c 0 := by
  rcases run_wordAt_cases c with h | ⟨w, h, -⟩
  · exact Moves.of_run_ok h (Reaches.refl c) le_rfl
  · exact Moves.of_run_ok h (Reaches.refl c) le_rfl

theorem progress_peekWord : Progress peekWord c 0 := by
  rw [peekWord]
  exact Moves.skipBlanks_bind (Reaches.refl c) fun hbc => (progress_wordAt _).lift hbc

/-- `readWord` reads a word of at least one character, or fails. -/
theorem progress_readWord : Progress readWord c 1 := by
  have hskip := reaches_skipBlanks c true
  rw [readWord]
  rcases run_peekWord_cases c with h | ⟨w, h, hpos, hle⟩
  · refine Moves.of_run_eq (run_bind_ok h) hskip ?_
    exact Moves.found_bind _ fun s => Moves.fail hskip (append_ne_nests _ (by decide))
  · refine Moves.of_run_eq (run_bind_ok h) hskip ?_
    refine Moves.bind hskip ((progress_advance _ w.length).mono (by omega)) fun _ _ _ _ _ => ?_
    exact Moves.pure w

theorem progress_tryWord (w : String) : Progress (tryWord w) c 0 := by
  rw [tryWord]
  refine Moves.bind (Reaches.refl c) (progress_peekWord c) fun a c' _ hbc _ => ?_
  split
  · exact Moves.bind hbc ((progress_advance _ _).mono (Nat.zero_le _)) fun _ _ _ _ _ =>
      Moves.pure _
  · exact Moves.pure _

theorem progress_expectWord (w : String) : Progress (expectWord w) c 0 := by
  rw [expectWord]
  refine Moves.bind (Reaches.refl c) (progress_tryWord c w) fun a c' _ hbc _ => ?_
  split
  · exact Moves.pure _
  · refine Moves.found_bind _ fun s => Moves.fail hbc ?_
    rw [String.append_assoc]
    exact append_append_ne_nests _ _ (by decide)

/-- `readNumber` reads at least one digit, or fails. -/
theorem progress_readNumber (bound : Nat) : Progress (readNumber bound) c 1 := by
  rw [readNumber]
  refine Moves.skipBlanks_bind (Reaches.refl c) fun hbc => Moves.get_bind ?_
  dsimp only
  split
  · exact Moves.found_bind _ fun s => Moves.fail hbc (append_ne_nests _ (by decide))
  · next hds =>
    have hpos : 1 ≤ ((c.skipBlanks true).rest.takeWhile isDigitChar).length := by
      cases h : (c.skipBlanks true).rest.takeWhile isDigitChar with
      | nil => simp [h] at hds
      | cons x xs => simp
    have hle := (List.takeWhile_prefix isDigitChar
      (l := (c.skipBlanks true).rest)).length_le
    refine Moves.bind hbc ((progress_advance _ _).mono (by omega)) fun _ _ _ _ _ => ?_
    exact Moves.pure _

/-- `readRawString` reads the two quotes and what stands between them, or fails. -/
theorem progress_readRawString : Progress readRawString c 1 := by
  rw [readRawString]
  refine Moves.peek_bind ?_
  split
  · exact Moves.found_bind _ fun s => Moves.fail_bind (Reaches.refl c)
      (append_ne_nests _ (by decide))
  · refine Moves.get_bind (Moves.get_bind ?_)
    dsimp only
    split
    · exact Moves.fail_bind (Reaches.refl c) (by decide)
    · next hend =>
      have hlen : ((c.rest.drop 1).takeWhile (· ≠ '"')).length + 2 ≤ c.rest.length := by
        have hne : c.rest.drop (1 + ((c.rest.drop 1).takeWhile (· ≠ '"')).length) ≠ [] :=
          fun h0 => hend (by rw [h0]; rfl)
        have := List.length_pos_iff.mpr hne
        rw [List.length_drop] at this
        omega
      refine Moves.bind (Reaches.refl c) ((progress_advance _ _).mono (by omega))
        fun _ _ _ _ _ => ?_
      exact Moves.pure _

/-- A refused escape is reported as such, never as exhaustion. -/
theorem message_ne_nests (e : Text.BadEscape) : e.message ≠ "input nests too deeply" :=
  append_ne_nests _ (by decide)

/-- `readString` reads a quoted string, or fails. -/
theorem progress_readString : Progress readString c 1 := by
  rw [readString]
  refine Moves.skipBlanks_bind (Reaches.refl c) fun hbc => ?_
  refine Moves.bind hbc (progress_readRawString _) fun raw c' _ hbc' _ => ?_
  split
  · exact Moves.fail hbc' (message_ne_nests _)
  · split
    · exact Moves.pure _
    · exact Moves.fail hbc' (by decide)

/-- `readName` reads a quoted name or a run of name characters, or fails. -/
theorem progress_readName : Progress readName c 1 := by
  rw [readName]
  refine Moves.peek_bind ?_
  split
  · exact progress_readString c
  · refine Moves.get_bind ?_
    dsimp only
    split
    · exact Moves.found_bind _ fun s => Moves.fail_bind (Reaches.refl c)
        (append_ne_nests _ (by decide))
    · next hn =>
      have hpos : 1 ≤ (c.rest.takeWhile isNameChar).length := by
        cases h : c.rest.takeWhile isNameChar with
        | nil => simp [h] at hn
        | cons x xs => simp
      have hle := (List.takeWhile_prefix isNameChar (l := c.rest)).length_le
      refine Moves.bind (Reaches.refl c) ((progress_advance _ _).mono (by omega))
        fun _ _ _ _ _ => ?_
      exact Moves.pure _

theorem progress_readGlobalName : Progress readGlobalName c 1 := by
  rw [readGlobalName]
  exact Moves.bind (Reaches.refl c) (progress_expect c '@') fun _ c' _ hbc _ =>
    ((progress_readName c').lift hbc).mono (Nat.zero_le _)

theorem progress_readComdatName : Progress readComdatName c 1 := by
  rw [readComdatName]
  exact Moves.bind (Reaches.refl c) (progress_expect c '$') fun _ c' _ hbc _ =>
    ((progress_readName c').lift hbc).mono (Nat.zero_le _)

theorem progress_readLocal : Progress readLocal c 1 := by
  rw [readLocal]
  refine Moves.bind (Reaches.refl c) (progress_expect c '%') fun _ c' _ hbc _ => ?_
  refine Moves.peek_bind ?_
  have hname : Moves c (readName >>= fun n => pure (LocalName.name n)) c' 0 :=
    Moves.bind hbc ((progress_readName c').mono (Nat.zero_le _)) fun _ _ _ _ _ => Moves.pure _
  split
  · split
    · exact Moves.bind hbc ((progress_readNumber c' _).mono (Nat.zero_le _))
        fun _ _ _ _ _ => Moves.pure _
    · exact hname
  · exact hname

end Reader

end LlvmAsm.Ast
