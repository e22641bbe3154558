import ReplyLedger.Proofs.Ledger.Settlement

/-!
# Runs

A run takes one step after the other, and before every step the host may list what is in a directory in
another order (`Session.Run`). Such a change is not seen in what stands at a location
(`entryAt_of_perm`), and leaves what is stored in order (`Stored.withFiles`). A run can be cut at every
step (`Run.split`), and steps that are played one after the other are a run (`run_play`).
-/

namespace ReplyLedger

open FileSystem Ledger

/-! ## Directories in another order -/

/-- The same entries in another order are the same to see. -/
theorem FileSystem.entryAt_of_perm {fs gs : FileSystem} (h : gs.entries.Perm fs.entries)
    (r : Location) : gs.entryAt r = fs.entryAt r := by
  by_cases h0 : r = []
  · rw [h0, entryAt_nil, entryAt_nil]
  · exact entryAt_congr h0 h0 fun e => h.mem_iff

theorem Ledger.sameOutside_of_perm {fs gs : FileSystem} {d : Location}
    (h : gs.entries.Perm fs.entries) : SameOutside d fs gs :=
  fun r _ => entryAt_of_perm h r

namespace Session

variable {state : FilePath} {d : Location} {s : Session} {files : FileSystem}

/-- The session on a host with other files. -/
def withFiles (s : Session) (files : FileSystem) : Session :=
  { s with desk := { s.desk with host := { s.desk.host with files } } }

/-- What is stored stays in order when directories list their entries in another order. -/
theorem Stored.withFiles (hs : s.Stored state d)
    (h : files.entries.Perm s.desk.host.files.entries) : (s.withFiles files).Stored state d := by
  have hview := entryAt_of_perm h
  have hstore : Store files s.desk.host.cwd state d := by
    refine ⟨hs.desk.store.leads.keep fun r e he _ => (hview r).trans he,
      (hview _).trans hs.desk.store.tasks, fun name e he => ?_⟩
    exact hs.desk.store.records name e ((hview _).symm.trans he)
  have hsupplied : (s.withFiles files).desk.host.IsSupplied :=
    ⟨hs.desk.supplied.ids, hs.desk.supplied.clock, hs.desk.supplied.journalTime⟩
  refine ⟨⟨hstore, hsupplied, hs.desk.tasksDirectory, hs.desk.inMemory, ?_⟩, hs.copies⟩
  refine hs.desk.pointer.imp_right fun hkept => ⟨?_, hkept.inMemory⟩
  obtain ⟨target, ho⟩ := hkept.onDisk
  refine ⟨target, ⟨hstore, fun e he => ho.slot e ((hview _).symm.trans he), hsupplied,
    ho.tasksDirectory, ho.pointer⟩, ?_⟩
  have hpoints := ho.points
  cases target with
  | none => exact (hview _).trans hpoints
  | some t => exact ⟨hpoints.1, (hview _).trans hpoints.2.1, (hview _).trans hpoints.2.2⟩

/-! ## Runs -/

/-- A run of steps of which `P` holds, with the session before each of them. Before every step and
after the last one, directories may list their entries in another order. -/
inductive Run (P : Session → Ledger.Step → Prop) :
    Session → List (Session × Ledger.Step) → Session → Prop
  | done {s : Session} : Run P s [] s
  | step {s last : Session} {step : Ledger.Step} {rest : List (Session × Ledger.Step)}
      (allowed : P s step) (later : Run P (s.take step).2 rest last) : Run P s ((s, step) :: rest) last
  | relist {s last : Session} {files : FileSystem} {rest : List (Session × Ledger.Step)}
      (same : files.entries.Perm s.desk.host.files.entries)
      (later : Run P (s.withFiles files) rest last) : Run P s rest last

namespace Run

variable {P : Session → Ledger.Step → Prop} {last : Session}
variable {earlier later : List (Session × Ledger.Step)}

theorem append {start : Session} (h : Run P start earlier s) (h' : Run P s later last) :
    Run P start (earlier ++ later) last := by
  induction h with
  | done => exact h'
  | step allowed _ ih => exact .step allowed (ih h')
  | relist same _ ih => exact .relist same (ih h')

/-- The run before a step of a run, and the run after it. -/
theorem split {x : Session × Ledger.Step} (h : Run P s (earlier ++ x :: later) last) :
    Run P s earlier x.1 ∧ P x.1 x.2 ∧ Run P (x.1.take x.2).2 later last := by
  generalize hall : earlier ++ x :: later = all at h
  induction h generalizing earlier with
  | done => simp at hall
  | step allowed after ih =>
    rcases List.append_eq_cons_iff.1 hall with ⟨rfl, hx⟩ | ⟨more, rfl, hrest⟩
    · obtain ⟨rfl, rfl⟩ := List.cons.inj hx
      exact ⟨.done, allowed, after⟩
    · obtain ⟨hbefore, hx, hafter⟩ := ih hrest.symm
      exact ⟨.step allowed hbefore, hx, hafter⟩
  | relist same _ ih =>
    obtain ⟨hbefore, hx, hafter⟩ := ih hall
    exact ⟨.relist same hbefore, hx, hafter⟩

/-- Without steps, a run changes nothing but the order of directories. -/
theorem entryAt_of_done (h : Run P s [] last) (r : Location) :
    last.desk.host.files.entryAt r = s.desk.host.files.entryAt r := by
  generalize hnone : ([] : List (Session × Ledger.Step)) = none at h
  induction h with
  | done => rfl
  | step => exact nomatch hnone
  | relist same _ ih => exact (ih hnone).trans (entryAt_of_perm same r)

end Run

/-- The steps that are taken one after the other, each with the session before it. -/
def trace : List Ledger.Step → Session → List (Session × Ledger.Step)
  | [], _ => []
  | step :: rest, s => (s, step) :: trace rest (s.take step).2

theorem forall_trace_nil (s : Session) (P : Session → Ledger.Step → Prop) :
    ∀ x ∈ trace [] s, P x.1 x.2 := List.forall_mem_nil _

theorem forall_trace_cons {P : Session → Ledger.Step → Prop} {step : Ledger.Step}
    {rest : List Ledger.Step} : (∀ x ∈ trace (step :: rest) s, P x.1 x.2) ↔
      P s step ∧ ∀ x ∈ trace rest (s.take step).2, P x.1 x.2 := List.forall_mem_cons

theorem mem_of_mem_trace {steps : List Ledger.Step} {x : Session × Ledger.Step}
    (hx : x ∈ trace steps s) : x.2 ∈ steps := by
  induction steps generalizing s with
  | nil => exact nomatch hx
  | cons step rest ih =>
    rcases List.mem_cons.1 hx with rfl | hx
    · exact List.mem_cons_self
    · exact List.mem_cons_of_mem _ (ih hx)

/-- Steps that are taken one after the other are a run. -/
theorem run_play {P : Session → Ledger.Step → Prop} {steps : List Ledger.Step}
    (h : ∀ x ∈ trace steps s, P x.1 x.2) : Run P s (trace steps s) (play steps s).2 := by
  induction steps generalizing s with
  | nil => exact .done
  | cons step rest ih =>
    rw [play_cons]
    exact .step (forall_trace_cons.1 h).1 (ih (forall_trace_cons.1 h).2)

end Session

end ReplyLedger
