import ReplyLedger.Json.Parser
import ReplyLedger.Json.Printer

/-!
# Documents there and back

A value made of texts, lists and objects is read from its document again (`ofDocument_document`).
Every character of a text is read from what is written for it (`readText_escapeChar`); a list or an
object is read item by item, and blanks are found between the tokens only where they were put. The
nesting of a value is not deeper than its text is long, so the fuel is enough.
-/

namespace ReplyLedger.Json

/-! ## Texts -/

theorem hexNumber?_ofHexPadded : ∀ n < 0x20, ∃ a b c d, Text.ofHexPadded 4 n = [a, b, c, d] ∧
    hexNumber? a b c d = some n := by
  let digit (n i : Nat) : Char := (Text.ofHexPadded 4 n).getD i '0'
  have hdigits : ∀ n < 0x20,
      Text.ofHexPadded 4 n = [digit n 0, digit n 1, digit n 2, digit n 3] ∧
        hexNumber? (digit n 0) (digit n 1) (digit n 2) (digit n 3) = some n := by
    decide
  exact fun n hn => ⟨_, _, _, _, hdigits n hn⟩

/-- A character is read from what is written for it, if the text goes on. -/
theorem readText_escapeChar (start position : Nat) (c : Char) {t : Text} (ht : t ≠ []) :
    readText start position (escapeChar c ++ t) =
      (readText start (position + (escapeChar c).length) t).map fun (s, r) => (c :: s, r) := by
  unfold escapeChar
  split
  · subst_vars; rfl
  split
  · subst_vars; rfl
  split
  · subst_vars; rfl
  split
  · subst_vars; rfl
  split
  · subst_vars; rfl
  split
  · subst_vars; rfl
  split
  · subst_vars; rfl
  split
  · rename_i hc
    obtain ⟨a, b, d, e, hhex, hn⟩ := hexNumber?_ofHexPadded c.toNat hc
    have hhigh : isHighHalf c.toNat = false := by simp [isHighHalf]; omega
    have hlow : isLowHalf c.toNat = false := by simp [isLowHalf]; omega
    have hchar : charOfCode c.toNat = c := by
      rw [charOfCode, hhigh, hlow]
      exact Char.ofNat_toNat c
    rw [hhex]
    simp only [List.cons_append, List.nil_append]
    rw [readText]
    simp [ht, hn, hhigh, hchar]
  · rename_i h1 h2 _ _ _ _ _ hc
    rw [List.singleton_append, readText]
    · rw [if_neg hc]
      rfl
    all_goals simp_all

/-- A text is read from what is written between its quotation marks. -/
theorem readText_flatMap_escapeChar (start position : Nat) (t rest : Text) :
    readText start position (t.flatMap escapeChar ++ '"' :: rest) =
      .ok (t, ⟨position + (t.flatMap escapeChar).length + 1, rest⟩) := by
  induction t generalizing position with
  | nil => rfl
  | cons c t ih =>
    rw [List.flatMap_cons, List.append_assoc, readText_escapeChar _ _ _ (by simp), ih]
    simp [Except.map, Nat.add_assoc]

/-! ## Values -/

/-- A value made of texts, lists and objects, the keys of an object being distinct. -/
inductive Textual : Value → Prop
  | text (t : Text) : Textual (.text t)
  | list {items : List Value} (h : ∀ v ∈ items, Textual v) : Textual (.list items)
  | object {members : List (Text × Value)} (h : ∀ m ∈ members, Textual m.2)
    (hk : (members.map Prod.fst).Nodup) : Textual (.object members)

/-- Whether a character is a blank between tokens. -/
def isSpace (c : Char) : Bool := c = ' ' || c = '\t' || c = '\n' || c = '\r'

/-- Blanks are skipped up to a token. -/
theorem skipBlanks_append {blanks t : Text} (hb : ∀ c ∈ blanks, isSpace c)
    (ht : ∀ c ∈ t.head?, isSpace c = false) (position : Nat) :
    Cursor.skipBlanks ⟨position, blanks ++ t⟩ = ⟨position + blanks.length, t⟩ := by
  have hstop : t.takeWhile isSpace = [] := by
    cases t with
    | nil => rfl
    | cons c t => rw [List.takeWhile_cons_of_neg (by simpa using ht c rfl)]
  have htake : (blanks ++ t).takeWhile isSpace = blanks := by
    rw [List.takeWhile_append_of_pos hb, hstop, List.append_nil]
  change Cursor.skip ((blanks ++ t).takeWhile isSpace).length ⟨position, blanks ++ t⟩ = _
  rw [htake, Cursor.skip]
  simp

theorem skipBlanks_of_head {t : Text} (ht : ∀ c ∈ t.head?, isSpace c = false) (position : Nat) :
    Cursor.skipBlanks ⟨position, t⟩ = ⟨position, t⟩ :=
  skipBlanks_append (List.forall_mem_nil _) ht position

theorem isSpace_lineBreak (level : Nat) : ∀ c ∈ lineBreak level, isSpace c := by
  intro c hc
  rcases List.mem_cons.1 hc with rfl | hc
  · decide
  · rw [List.eq_of_mem_replicate hc]
    decide

/-- A textual value begins with a character of its own. -/
theorem head_write {v : Value} (hv : Textual v) (level : Nat) (t : Text) :
    ∃ c r, v.write level ++ t = c :: r ∧ (c = '"' ∨ c = '[' ∨ c = '\x7b') := by
  cases hv with
  | text t => exact ⟨_, _, rfl, .inl rfl⟩
  | @list items h =>
    cases items with
    | nil => exact ⟨_, _, rfl, .inr (.inl rfl)⟩
    | cons v vs => exact ⟨_, _, rfl, .inr (.inl rfl)⟩
  | @object members h hk =>
    cases members with
    | nil => exact ⟨_, _, rfl, .inr (.inr rfl)⟩
    | cons m ms => exact ⟨_, _, rfl, .inr (.inr rfl)⟩

theorem head_write_not_space {v : Value} (hv : Textual v) (level : Nat) (t : Text) :
    ∀ c ∈ (v.write level ++ t).head?, isSpace c = false := by
  obtain ⟨c, r, he, hc⟩ := head_write hv level t
  rw [he]
  rintro d hd
  obtain rfl : c = d := by simpa using hd
  rcases hc with rfl | rfl | rfl <;> decide

/-- The items of a list begin with its first item. -/
theorem writeItems_cons_append (level : Nat) (v : Value) (vs : List Value) (t : Text) :
    ∃ u, Value.writeItems level (v :: vs) ++ t = v.write level ++ u := by
  cases vs with
  | nil => exact ⟨t, rfl⟩
  | cons w vs => exact ⟨_, by rw [Value.writeItems, List.append_assoc, List.append_assoc]⟩

/-- What the readers are to do with a value: read it from what is written for it. -/
def ReadsBack (v : Value) : Prop :=
  ∀ level fuel position rest, (v.write level).length ≤ fuel →
    readValue fuel ⟨position, v.write level ++ rest⟩ =
      .ok (v, ⟨position + (v.write level).length, rest⟩)

theorem readsBack_text (t : Text) : ReadsBack (.text t) := by
  intro level fuel position rest hf
  have hw : Value.write level (.text t) = '"' :: t.flatMap escapeChar ++ ['"'] := rfl
  rw [hw] at hf ⊢
  obtain ⟨fuel, rfl⟩ : ∃ n, fuel = n + 1 := by
    simp only [List.length_append, List.length_cons] at hf
    exact ⟨fuel - 1, by omega⟩
  rw [List.append_assoc, List.cons_append, readValue]
  simp only [List.singleton_append, readText_flatMap_escapeChar]
  simp [Except.map]
  omega

theorem readItems_writeItems {vs : List Value} (hne : vs ≠ []) (hv : ∀ v ∈ vs, Textual v)
    (hr : ∀ v ∈ vs, ReadsBack v) (level outer fuel position : Nat) (rest : Text)
    (hf : (Value.writeItems level vs).length + 1 ≤ fuel) :
    readItems fuel ⟨position, Value.writeItems level vs ++ (lineBreak outer ++ ']' :: rest)⟩ =
      .ok (vs, ⟨position + (Value.writeItems level vs).length + (lineBreak outer).length + 1,
        rest⟩) := by
  induction vs generalizing fuel position with
  | nil => exact absurd rfl hne
  | cons v vs ih =>
    obtain ⟨fuel, rfl⟩ : ∃ n, fuel = n + 1 := ⟨fuel - 1, by omega⟩
    have hread := hr v List.mem_cons_self
    cases vs with
    | nil =>
      have hw : Value.writeItems level [v] = v.write level := rfl
      rw [hw] at hf ⊢
      rw [readItems, hread level fuel position _ (by omega)]
      simp only [bind, Except.bind]
      rw [skipBlanks_append (isSpace_lineBreak outer) (by simp [isSpace])]
      rfl
    | cons w vs =>
      have hw : Value.writeItems level (v :: w :: vs) =
          v.write level ++ ',' :: lineBreak level ++ Value.writeItems level (w :: vs) := rfl
      rw [hw] at hf ⊢
      simp only [List.length_append, List.length_cons] at hf
      rw [readItems, List.append_assoc, List.append_assoc, hread level fuel position _ (by omega)]
      simp only [bind, Except.bind]
      rw [skipBlanks_of_head (by simp [isSpace])]
      have hhead : ∀ c ∈ (Value.writeItems level (w :: vs) ++
          (lineBreak outer ++ ']' :: rest)).head?, isSpace c = false := by
        obtain ⟨u, hu⟩ := writeItems_cons_append level w vs (lineBreak outer ++ ']' :: rest)
        rw [hu]
        exact head_write_not_space (hv w (by simp)) level u
      simp only [List.cons_append]
      rw [skipBlanks_append (isSpace_lineBreak level) hhead,
        ih (by simp) (fun u hu => hv u (List.mem_cons_of_mem _ hu))
          (fun u hu => hr u (List.mem_cons_of_mem _ hu)) fuel _ (by omega)]
      simp [pure, Except.pure]
      omega

theorem setMember_of_not_mem {key : Text} {known : List (Text × Value)}
    (h : key ∉ known.map Prod.fst) (v : Value) : setMember key v known = known ++ [(key, v)] := by
  induction known with
  | nil => rfl
  | cons m known ih =>
    obtain ⟨k, w⟩ := m
    simp only [List.map_cons, List.mem_cons, not_or] at h
    rw [setMember, if_neg (Ne.symm h.1), ih h.2, List.cons_append]

theorem writeText_eq (t : Text) : writeText t = '"' :: t.flatMap escapeChar ++ ['"'] := rfl

/-- The members of an object begin with its first key. -/
theorem head_writeMembers (level : Nat) (m : Text × Value) (ms : List (Text × Value)) (t : Text) :
    ∃ u, Value.writeMembers level (m :: ms) ++ t = '"' :: u := by
  cases ms with
  | nil => exact ⟨_, rfl⟩
  | cons n ms => exact ⟨_, rfl⟩

/-- A key with its colon is read, and then the value. -/
theorem readMembers_cons {key : Text} {v : Value} (hv : Textual v) (hr : ReadsBack v)
    {known : List (Text × Value)} (hk : key ∉ known.map Prod.fst) (level fuel position : Nat)
    (tail : Text) (hf : (v.write level).length ≤ fuel) {c : Cursor}
    (hc : Cursor.skipBlanks
      ⟨position + (writeText key ++ [':', ' '] ++ v.write level).length, tail⟩ = c) :
    readMembers (fuel + 1) known
        ⟨position, writeText key ++ [':', ' '] ++ v.write level ++ tail⟩ =
      match c.rest with
      | '\x7d' :: t => .ok (known ++ [(key, v)], ⟨c.position + 1, t⟩)
      | ',' :: t => readMembers fuel (known ++ [(key, v)]) (⟨c.position + 1, t⟩ : Cursor).skipBlanks
      | _ => .error (.malformed .comma c.position) := by
  have htext : writeText key ++ [':', ' '] ++ v.write level ++ tail =
      '"' :: (key.flatMap escapeChar ++ '"' :: (':' :: ([' '] ++ (v.write level ++ tail)))) := by
    simp [writeText_eq]
  rw [htext, readMembers]
  simp only [readText_flatMap_escapeChar, bind, Except.bind]
  rw [skipBlanks_of_head (by simp [isSpace])]
  simp only
  rw [skipBlanks_append (by simp [isSpace]) (head_write_not_space hv level tail),
    hr level fuel _ tail hf]
  simp only [setMember_of_not_mem hk]
  have hposition : position + 1 + (key.flatMap escapeChar).length + 1 + 1 + [' '].length +
      (v.write level).length =
        position + (writeText key ++ [':', ' '] ++ v.write level).length := by
    simp [writeText_eq]
    omega
  rw [hposition, hc]
  rfl

theorem readMembers_writeMembers {ms : List (Text × Value)} (hne : ms ≠ [])
    (hv : ∀ m ∈ ms, Textual m.2) (hr : ∀ m ∈ ms, ReadsBack m.2) (known : List (Text × Value))
    (hk : ((known ++ ms).map Prod.fst).Nodup) (level outer fuel position : Nat) (rest : Text)
    (hf : (Value.writeMembers level ms).length + 1 ≤ fuel) :
    readMembers fuel known
        ⟨position, Value.writeMembers level ms ++ (lineBreak outer ++ '\x7d' :: rest)⟩ =
      .ok (known ++ ms, ⟨position + (Value.writeMembers level ms).length +
        (lineBreak outer).length + 1, rest⟩) := by
  induction ms generalizing known fuel position with
  | nil => exact absurd rfl hne
  | cons m ms ih =>
    obtain ⟨key, v⟩ := m
    obtain ⟨fuel, rfl⟩ : ∃ n, fuel = n + 1 := ⟨fuel - 1, by omega⟩
    have hvv : Textual v := hv (key, v) List.mem_cons_self
    have hrv : ReadsBack v := hr (key, v) List.mem_cons_self
    have hkey : key ∉ known.map Prod.fst := by
      rw [List.map_append, List.nodup_append] at hk
      intro hmem
      exact hk.2.2 key hmem key (by simp) rfl
    cases ms with
    | nil =>
      have hw : Value.writeMembers level [(key, v)] =
          writeText key ++ [':', ' '] ++ v.write level := rfl
      rw [hw] at hf ⊢
      simp only [List.length_append] at hf
      rw [readMembers_cons hvv hrv hkey level fuel position _ (by omega)
        (skipBlanks_append (isSpace_lineBreak outer) (by simp [isSpace]) _)]
      rfl
    | cons n ms =>
      have hw : Value.writeMembers level ((key, v) :: n :: ms) =
          writeText key ++ [':', ' '] ++ v.write level ++ ',' :: lineBreak level ++
            Value.writeMembers level (n :: ms) := rfl
      rw [hw] at hf ⊢
      simp only [List.length_append, List.length_cons] at hf
      rw [List.append_assoc (_ ++ ',' :: lineBreak level), List.append_assoc (_ ++ v.write level),
        readMembers_cons hvv hrv hkey level fuel position _ (by omega)
          (skipBlanks_of_head (by simp [isSpace]) _)]
      have hhead : ∀ c ∈ (Value.writeMembers level (n :: ms) ++
          (lineBreak outer ++ '\x7d' :: rest)).head?, isSpace c = false := by
        obtain ⟨u, hu⟩ := head_writeMembers level n ms (lineBreak outer ++ '\x7d' :: rest)
        rw [hu]
        simp [isSpace]
      simp only [List.cons_append]
      rw [skipBlanks_append (isSpace_lineBreak level) hhead,
        ih (by simp) (fun m hm => hv m (List.mem_cons_of_mem _ hm))
          (fun m hm => hr m (List.mem_cons_of_mem _ hm)) (known ++ [(key, v)])
          (by simpa using hk) fuel _ (by omega)]
      simp
      omega

theorem readsBack_list {items : List Value} (h : ∀ v ∈ items, Textual v)
    (hr : ∀ v ∈ items, ReadsBack v) : ReadsBack (.list items) := by
  intro level fuel position rest hf
  cases items with
  | nil =>
    have hw : Value.write level (.list []) = ['[', ']'] := rfl
    rw [hw] at hf ⊢
    obtain ⟨fuel, rfl⟩ : ∃ n, fuel = n + 1 := ⟨fuel - 1, by simp at hf; omega⟩
    simp only [List.cons_append, List.nil_append]
    rw [readValue]
    rfl
  | cons v vs =>
    have hw : Value.write level (.list (v :: vs)) = '[' :: lineBreak (level + 1) ++
        Value.writeItems (level + 1) (v :: vs) ++ lineBreak level ++ [']'] := rfl
    rw [hw] at hf ⊢
    simp only [List.length_append, List.length_cons] at hf
    obtain ⟨fuel, rfl⟩ : ∃ n, fuel = n + 1 := ⟨fuel - 1, by omega⟩
    have htext : '[' :: lineBreak (level + 1) ++ Value.writeItems (level + 1) (v :: vs) ++
        lineBreak level ++ [']'] ++ rest = '[' :: (lineBreak (level + 1) ++
          (Value.writeItems (level + 1) (v :: vs) ++ (lineBreak level ++ ']' :: rest))) := by
      simp
    obtain ⟨u, hu⟩ := writeItems_cons_append (level + 1) v vs (lineBreak level ++ ']' :: rest)
    have hhead := head_write_not_space (h v List.mem_cons_self) (level + 1) u
    obtain ⟨c, r, hcr, hc⟩ := head_write (h v List.mem_cons_self) (level + 1) u
    have hitems := readItems_writeItems (by simp) h hr (level + 1) level fuel
      (position + 1 + (lineBreak (level + 1)).length) rest (by omega)
    rw [← hu] at hhead hcr
    rw [htext, readValue]
    simp only [skipBlanks_append (isSpace_lineBreak (level + 1)) hhead]
    rw [hcr] at hitems ⊢
    rcases hc with rfl | rfl | rfl
    all_goals
      rw [hitems]
      simp [Except.map]
      omega

theorem readsBack_object {members : List (Text × Value)} (h : ∀ m ∈ members, Textual m.2)
    (hk : (members.map Prod.fst).Nodup) (hr : ∀ m ∈ members, ReadsBack m.2) :
    ReadsBack (.object members) := by
  intro level fuel position rest hf
  cases members with
  | nil =>
    have hw : Value.write level (.object []) = ['\x7b', '\x7d'] := rfl
    rw [hw] at hf ⊢
    obtain ⟨fuel, rfl⟩ : ∃ n, fuel = n + 1 := ⟨fuel - 1, by simp at hf; omega⟩
    simp only [List.cons_append, List.nil_append]
    rw [readValue]
    rfl
  | cons m ms =>
    have hw : Value.write level (.object (m :: ms)) = '\x7b' :: lineBreak (level + 1) ++
        Value.writeMembers (level + 1) (m :: ms) ++ lineBreak level ++ ['\x7d'] := rfl
    rw [hw] at hf ⊢
    simp only [List.length_append, List.length_cons] at hf
    obtain ⟨fuel, rfl⟩ : ∃ n, fuel = n + 1 := ⟨fuel - 1, by omega⟩
    have htext : '\x7b' :: lineBreak (level + 1) ++ Value.writeMembers (level + 1) (m :: ms) ++
        lineBreak level ++ ['\x7d'] ++ rest = '\x7b' :: (lineBreak (level + 1) ++
          (Value.writeMembers (level + 1) (m :: ms) ++ (lineBreak level ++ '\x7d' :: rest))) := by
      simp
    obtain ⟨u, hu⟩ := head_writeMembers (level + 1) m ms (lineBreak level ++ '\x7d' :: rest)
    have hmembers := readMembers_writeMembers (by simp) h hr [] hk (level + 1) level
      fuel (position + 1 + (lineBreak (level + 1)).length) rest (by omega)
    rw [hu] at hmembers
    rw [htext, readValue, hu]
    simp only [skipBlanks_append (isSpace_lineBreak (level + 1))
      (show ∀ c ∈ ('"' :: u).head?, isSpace c = false by simp [isSpace])]
    rw [hmembers]
    simp [Except.map]
    omega

/-- **A textual value is read from what is written for it.** -/
theorem readsBack_of_textual {v : Value} (hv : Textual v) : ReadsBack v := by
  induction hv with
  | text t => exact readsBack_text t
  | list h ih => exact readsBack_list h ih
  | object h hk ih => exact readsBack_object h hk ih

/-- **A textual value is read from its document.** -/
theorem ofDocument_document {v : Value} (hv : Textual v) : Value.ofDocument v.document = .ok v := by
  obtain ⟨c, r, hcr, hc⟩ := head_write hv 0 ['\n']
  have hhead := head_write_not_space hv 0 ['\n']
  have hread := readsBack_of_textual hv 0 (2 * v.document.length + 2) 0 ['\n'] (by
    simp only [Value.document, List.length_append]
    omega)
  have hdocument : v.document = c :: r := hcr
  have hbom : c ≠ '\uFEFF' := by rcases hc with rfl | rfl | rfl <;> decide
  have hstart : Cursor.skipBlanks ⟨0, v.document⟩ = ⟨0, v.document⟩ := skipBlanks_of_head hhead 0
  have hend : Cursor.skipBlanks ⟨0 + (v.write 0).length, ['\n']⟩ =
      ⟨0 + (v.write 0).length + 1, []⟩ :=
    skipBlanks_append (t := []) (List.forall_mem_singleton.2 rfl) (by simp) _
  unfold Value.ofDocument
  split
  · rename_i t heq
    exact absurd (List.cons.inj (hdocument.symm.trans heq)).1 hbom
  · rw [hstart]
    change readValue _ ⟨0, v.write 0 ++ ['\n']⟩ >>= _ = _
    rw [hread]
    simp only [bind, Except.bind, hend]
    rfl

end ReplyLedger.Json
