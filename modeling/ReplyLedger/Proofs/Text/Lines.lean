import ReplyLedger.Proofs.Timestamp.RoundTrip
import ReplyLedger.Text.Lines
import ReplyLedger.Text.Quoted

/-!
# Lines that stay whole

The lines of texts that are written one below the other, each with a line feed behind it, are the
lines of the one, then those of the other (`lines_flatMap`). They are the texts themselves exactly if
each of them is on one line, that is if none of its characters ends a line (`flatMap_lines_eq_iff`).
Numbers and quoted texts are on one line whatever they show (`oneLine_quote`).
-/

namespace ReplyLedger.Text

variable {s t line : Text} {c : Char}

/-- Whether no character of a text ends a line. -/
def OneLine (t : Text) : Prop := ∀ c ∈ t, endsLine c = false

instance (t : Text) : Decidable (OneLine t) := List.decidableBAll (endsLine · = false) t

@[simp] theorem oneLine_nil : OneLine [] := by simp [OneLine]

@[simp] theorem oneLine_cons : OneLine (c :: t) ↔ endsLine c = false ∧ OneLine t :=
  List.forall_mem_cons

@[simp] theorem oneLine_append : OneLine (s ++ t) ↔ OneLine s ∧ OneLine t := List.forall_mem_append

/-! ## One character more -/

theorem linesFrom_cons_of_endsLine (hc : endsLine c) (hcr : c = '\r' → ∀ u, t ≠ '\n' :: u) :
    linesFrom line (c :: t) = line.reverse :: lines t := by
  rw [linesFrom.eq_3 line c t fun u h => hcr h u, if_pos hc]
  rfl

/-- Where a character ends a line, the line is the first one. -/
theorem exists_linesFrom_cons_of_endsLine (line t : Text) (hc : endsLine c) :
    ∃ rest, linesFrom line (c :: t) = line.reverse :: rest := by
  by_cases hcr : ∃ u, c = '\r' ∧ t = '\n' :: u
  · obtain ⟨u, rfl, rfl⟩ := hcr
    exact ⟨_, rfl⟩
  · exact ⟨_, linesFrom_cons_of_endsLine hc fun h u hu => hcr ⟨u, h, hu⟩⟩

theorem linesFrom_cons_of_not_endsLine (hc : endsLine c = false) :
    linesFrom line (c :: t) = linesFrom (c :: line) t := by
  rw [linesFrom.eq_3 line c t fun u h => ?_, if_neg (by simp [hc])]
  rintro -
  rw [h] at hc
  cases hc

/-! ## Texts one below the other -/

/-- Behind a line feed, the lines are those of what follows. -/
theorem linesFrom_append_lineFeed (line s t : Text) :
    linesFrom line (s ++ '\n' :: t) = linesFrom line (s ++ ['\n']) ++ lines t := by
  fun_induction linesFrom line s with
  | case1 | case2 => rfl
  | case3 line s ih =>
    simp only [List.cons_append, linesFrom, ih]
  | case4 line c s hcr hends ih =>
    rcases s with _ | ⟨d, s⟩
    · -- a carriage return and the line feed behind it end one line
      by_cases hc : c = '\r'
      · subst hc
        rfl
      · simp [linesFrom_cons_of_endsLine hends, hc, lines, linesFrom, endsLine]
    · have hcut (u : Text) :
          linesFrom line (c :: (d :: s ++ u)) = line.reverse :: lines (d :: s ++ u) :=
        linesFrom_cons_of_endsLine hends fun hc v hv => hcr s hc (by rw [(List.cons.inj hv).1])
      change linesFrom line (c :: (d :: s ++ '\n' :: t)) =
        linesFrom line (c :: (d :: s ++ ['\n'])) ++ lines t
      rw [hcut, hcut, lines, ih]
      rfl
  | case5 line c s hcr hends ih =>
    have hc : endsLine c = false := by simpa using hends
    rw [List.cons_append, linesFrom_cons_of_not_endsLine hc, List.cons_append,
      linesFrom_cons_of_not_endsLine hc, ih]

/-- **The lines of texts one below the other** are those of each of them, in order. -/
theorem lines_flatMap (ts : List Text) :
    lines (ts.flatMap (· ++ ['\n'])) = ts.flatMap fun t => lines (t ++ ['\n']) := by
  induction ts with
  | nil => rfl
  | cons t ts ih =>
    rw [List.flatMap_cons, List.flatMap_cons, List.append_assoc, List.singleton_append, lines,
      linesFrom_append_lineFeed, ih]
    rfl

/-- A text with a line feed behind it is one line exactly if no character of it ends one before. -/
theorem linesFrom_lineFeed_eq_iff :
    linesFrom line (t ++ ['\n']) = [line.reverse ++ t] ↔ OneLine t := by
  induction t generalizing line with
  | nil => simp [linesFrom, endsLine]
  | cons c t ih =>
    rw [List.cons_append, oneLine_cons]
    cases hc : endsLine c with
    | true =>
      obtain ⟨rest, hrest⟩ := exists_linesFrom_cons_of_endsLine line (t ++ ['\n']) hc
      simp [hrest]
    | false =>
      rw [linesFrom_cons_of_not_endsLine hc, ← @ih (c :: line)]
      simp

theorem lines_lineFeed_ne_nil (t : Text) : lines (t ++ ['\n']) ≠ [] := by
  suffices ∀ line, linesFrom line (t ++ ['\n']) ≠ [] from this []
  induction t with
  | nil => simp [linesFrom, endsLine]
  | cons c t ih =>
    intro line
    rw [List.cons_append]
    cases hc : endsLine c with
    | true =>
      obtain ⟨rest, hrest⟩ := exists_linesFrom_cons_of_endsLine line (t ++ ['\n']) hc
      simp [hrest]
    | false =>
      rw [linesFrom_cons_of_not_endsLine hc]
      exact ih _

/-- **Texts one below the other are read back as they are exactly if each is on one line.** -/
theorem flatMap_lines_eq_iff (ts : List Text) :
    (ts.flatMap fun t => lines (t ++ ['\n'])) = ts ↔ ∀ t ∈ ts, OneLine t := by
  have hlength (ts : List Text) : ts.length ≤ (ts.flatMap fun t => lines (t ++ ['\n'])).length := by
    induction ts with
    | nil => exact Nat.le_refl _
    | cons t ts ih =>
      have := List.length_pos_iff.2 (lines_lineFeed_ne_nil t)
      rw [List.flatMap_cons, List.length_append, List.length_cons]
      omega
  induction ts with
  | nil => simp
  | cons t ts ih =>
    rw [List.forall_mem_cons, List.flatMap_cons]
    constructor
    · -- every text has a line at least, so the first has only one
      intro h
      have hone : (lines (t ++ ['\n'])).length = [t].length := by
        have hall := congrArg List.length h
        have := List.length_pos_iff.2 (lines_lineFeed_ne_nil t)
        have := hlength ts
        rw [List.length_append, List.length_cons] at hall
        rw [List.length_singleton]
        omega
      obtain ⟨ht, hts⟩ := @List.append_inj _ _ [t] _ _ h hone
      exact ⟨linesFrom_lineFeed_eq_iff.1 ht, ih.1 hts⟩
    · rintro ⟨ht, hts⟩
      rw [ih.2 hts, lines, linesFrom_lineFeed_eq_iff.2 ht]
      rfl

/-! ## Numbers and quoted texts -/

theorem oneLine_joinWith {sep : Text} {texts : List Text} (hs : OneLine sep)
    (ht : ∀ t ∈ texts, OneLine t) : OneLine (joinWith sep texts) := by
  fun_induction joinWith sep texts with
  | case1 => exact oneLine_nil
  | case2 t => exact ht t (List.mem_singleton_self t)
  | case3 t u r ih =>
    refine oneLine_append.2 ⟨oneLine_append.2 ⟨ht t List.mem_cons_self, hs⟩, ?_⟩
    exact ih fun t h => ht t (List.mem_cons_of_mem _ h)

theorem oneLine_ofNat (n : Nat) : OneLine (ofNat n) :=
  forall_mem_toDigits (by decide) (by decide) n

theorem oneLine_replicate {c : Char} (hc : endsLine c = false) (n : Nat) :
    OneLine (List.replicate n c) := fun d hd => by rwa [List.eq_of_mem_replicate hd]

theorem oneLine_ofNatPadded (width n : Nat) : OneLine (ofNatPadded width n) :=
  oneLine_append.2 ⟨oneLine_replicate rfl _, oneLine_ofNat n⟩

theorem oneLine_ofHexPadded (width n : Nat) : OneLine (ofHexPadded width n) :=
  oneLine_append.2 ⟨oneLine_replicate rfl _, forall_mem_toDigits (by decide) (by decide) n⟩

/-- What ends a line is not shown as it is. -/
theorem not_isPrintable_of_endsLine (hc : endsLine c) : isPrintable c = false := by
  have hn : c.toNat < 0x20 ∨ c.toNat = 0x85 ∨ c.toNat = 0x2028 ∨ c.toNat = 0x2029 := by
    simp only [endsLine, Bool.or_eq_true, Bool.and_eq_true, decide_eq_true_eq, beq_iff_eq] at hc
    omega
  rw [isPrintable]
  rcases hn with hn | hn | hn | hn
  · rw [if_pos (by omega)]
    exact decide_eq_false (by omega)
  · rw [hn]
    decide +kernel
  · rw [hn]
    decide +kernel
  · rw [hn]
    decide +kernel

theorem oneLine_quoteChar {mark : Char} (hm : endsLine mark = false) (c : Char) :
    OneLine (quoteChar mark c) := by
  unfold quoteChar
  split
  · rename_i h
    have hc : endsLine c = false := by
      rcases Bool.or_eq_true_iff.1 h with h | h
      · rwa [of_decide_eq_true h]
      · rw [of_decide_eq_true h]
        rfl
    exact oneLine_cons.2 ⟨rfl, oneLine_cons.2 ⟨hc, oneLine_nil⟩⟩
  split
  · decide
  split
  · decide
  split
  · decide
  split
  · rename_i h
    refine oneLine_cons.2 ⟨?_, oneLine_nil⟩
    rw [← Bool.not_eq_true]
    intro hc
    rw [not_isPrintable_of_endsLine hc] at h
    cases h
  have hescape (letter : Char) (hl : endsLine letter = false) (width : Nat) :
      OneLine ('\\' :: letter :: ofHexPadded width c.toNat) :=
    oneLine_cons.2 ⟨rfl, oneLine_cons.2 ⟨hl, oneLine_ofHexPadded _ _⟩⟩
  split
  · exact hescape 'x' rfl 2
  split
  · exact hescape 'u' rfl 4
  · exact hescape 'U' rfl 8

/-- **A quoted text is on one line.** -/
theorem oneLine_quote (t : Text) : OneLine (quote t) := by
  have hm : endsLine (quoteMark t) = false := by
    rw [quoteMark]
    split <;> rfl
  refine oneLine_append.2 ⟨oneLine_cons.2 ⟨hm, fun c hc => ?_⟩, by simp [hm]⟩
  obtain ⟨d, -, hd⟩ := List.mem_flatMap.1 hc
  exact oneLine_quoteChar hm d c hd

end ReplyLedger.Text
