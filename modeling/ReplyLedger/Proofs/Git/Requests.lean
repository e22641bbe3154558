import ReplyLedger.Proofs.Git.Calls
import ReplyLedger.Proofs.Host.Sparing

/-!
# Requests to the version-control program

A commit and a reset are made of requests: commands, each with the answers that count as granting it
(`Git.Request`). From the answers to come it can be told which commands are called, namely those up
to the first that is not granted (`Git.callsMade`), and whether all are granted (`Git.allGranted`).
`Git.Meets` says that an action makes exactly these calls and answers accordingly, whatever the
program answers: it ends in any status with any output, or is not installed. So in a working tree the
commands are called in turn as long as the calls succeed (`Git.runs_inRepository`).
-/

namespace ReplyLedger.Git

/-- A command, and which answers grant what it asks. -/
structure Request where
  command : List Text
  grants : GitReply → Bool

/-- Whether a call says that there is a working tree: it ends with the status zero and writes the
word for it, with any blanks around. -/
def saysTrue : GitReply → Bool
  | .ended status output _ => status = 0 && Text.strip output = "true"
  | .missing => false

/-- The question whether there is a working tree. -/
def Request.askTree : Request := ⟨["rev-parse", "--is-inside-work-tree"], saysTrue⟩

/-- A command that has to succeed. -/
def Request.demand (command : List Text) : Request := ⟨command, GitReply.succeeds⟩

/-- The answer to the next call. When there are no answers left, calls succeed and write nothing. -/
def nextReply (replies : List GitReply) : GitReply := replies.headD (.ended 0 [] [])

/-- The commands that are called for requests: one after the other, up to the first that is not
granted. -/
def callsMade : List Request → List GitReply → List (List Text)
  | [], _ => []
  | r :: rs, replies =>
    r.command :: if r.grants (nextReply replies) then callsMade rs replies.tail else []

/-- Whether requests are all granted, each by the answer to its call. -/
def allGranted : List Request → List GitReply → Bool
  | [], _ => true
  | r :: rs, replies => r.grants (nextReply replies) && allGranted rs replies.tail

/-- The program after the calls for requests. -/
def after (directory : Option Text) (requests : List Request) (g : Git) : Git :=
  let made := callsMade requests g.replies
  ⟨g.replies.drop made.length, g.calls ++ made.map fun command => ⟨"git" :: command, directory⟩⟩

variable {directory : Option Text} {r : Request} {rs requests : List Request}
variable {replies : List GitReply} {g : Git} {h : Host}

@[simp] theorem after_nil : g.after directory [] = g := by
  simp [after, callsMade]

theorem after_cons_of_grants (hr : r.grants (nextReply g.replies)) :
    g.after directory (r :: rs) = (g.called directory r.command).after directory rs := by
  simp only [after, callsMade, if_pos hr, called, List.length_cons, List.map_cons,
    List.append_assoc, ← List.drop_one, List.drop_drop]
  rw [Nat.add_comm]
  rfl

theorem after_cons_of_not_grants (hr : r.grants (nextReply g.replies) = false) :
    g.after directory (r :: rs) = g.called directory r.command := by
  simp [after, callsMade, hr, called]

/-- When all requests are granted, all of their commands are called. -/
theorem callsMade_of_allGranted (hg : allGranted requests replies) :
    callsMade requests replies = requests.map Request.command := by
  induction requests generalizing replies with
  | nil => rfl
  | cons r rs ih =>
    obtain ⟨hr, hrest⟩ := Bool.and_eq_true_iff.1 hg
    rw [callsMade, if_pos hr, ih hrest, List.map_cons]

/-- What an action has come to that makes requests, if the program gave `replies`: yes or no, as they
were granted, or no answer because the program was not there. -/
def Answers (requests : List Request) (replies : List GitReply) (result : Except Failure Bool) :
    Prop :=
  result = .ok (allGranted requests replies) ∨
    allGranted requests replies = false ∧ result = .error (.system .noEntry "git")

/-- An action that makes the calls for requests, and answers whether they were granted. -/
def Meets (directory : Option Text) (requests : List Request) (act : Action Bool) : Prop :=
  ∀ h : Host, (outcome act h).2.git = h.git.after directory requests ∧
    Answers requests h.git.replies (outcome act h).1

/-- An action that says no, and does not call the program. -/
def Declines (act : Action Bool) : Prop :=
  ∀ h : Host, (outcome act h).1 = .ok false ∧ (outcome act h).2.git = h.git

theorem declines_say (level : Level) (text : Text) :
    Declines (Action.say level text >>= fun _ => pure false) := fun _ => ⟨rfl, rfl⟩

/-- After a command that has failed, it is said so, and the answer is no. -/
theorem declines_of_status {status : Int} (hs : status ≠ 0) {level : Level} {text : Text}
    {act : Action Bool} :
    Declines (if status ≠ 0 then Action.say level text >>= fun _ => pure false else act) := by
  rw [if_pos hs]
  exact declines_say level text

theorem meets_pure : Meets directory [] (pure true) := by
  intro h
  exact ⟨after_nil.symm, .inl rfl⟩

/-! ## One request -/

/-- A request that is granted, and those after it. -/
theorem Meets.of_grants {act : Action Bool} {h' : Host} (hm : Meets directory rs act)
    (hh : h'.git = h.git.called directory r.command) (hr : r.grants (nextReply h.git.replies)) :
    (outcome act h').2.git = h.git.after directory (r :: rs) ∧
      Answers (r :: rs) h.git.replies (outcome act h').1 := by
  obtain ⟨hafter, hanswers⟩ := hm h'
  rw [hh] at hafter hanswers
  refine ⟨hafter.trans (after_cons_of_grants hr).symm, ?_⟩
  rwa [Answers, allGranted, hr, Bool.true_and]

/-- A request that is not granted is the last one that is made. -/
theorem Declines.of_not_grants {act : Action Bool} {h' : Host} (hd : Declines act)
    (hh : h'.git = h.git.called directory r.command)
    (hr : r.grants (nextReply h.git.replies) = false) :
    (outcome act h').2.git = h.git.after directory (r :: rs) ∧
      Answers (r :: rs) h.git.replies (outcome act h').1 := by
  obtain ⟨hno, hgit⟩ := hd h'
  refine ⟨(hgit.trans hh).trans (after_cons_of_not_grants hr).symm, .inl ?_⟩
  rw [hno, allGranted, hr, Bool.false_and]

/-- A command that has to succeed, and what is done after it. -/
theorem meets_run_bind {command : List Text} {f : Int × Text × Text → Action Bool}
    (hstop : ∀ status output errors, status ≠ 0 → Declines (f (status, output, errors)))
    (hgo : ∀ output errors, Meets directory rs (f (0, output, errors))) :
    Meets directory (Request.demand command :: rs) (run command directory >>= f) := by
  intro h
  rw [outcome_bind, outcome_run, ← nextReply]
  rcases hr : nextReply h.git.replies with ⟨status, output, errors⟩ | _
  · by_cases hs : status = 0
    · subst hs
      exact (hgo output errors).of_grants rfl (by rw [hr]; rfl)
    · refine (hstop status output errors hs).of_not_grants rfl ?_
      rw [hr]
      exact decide_eq_false hs
  · have hno : (Request.demand command).grants (nextReply h.git.replies) = false := by rw [hr]; rfl
    refine ⟨(after_cons_of_not_grants hno).symm, .inr ⟨?_, rfl⟩⟩
    rw [allGranted, hno, Bool.false_and]

/-- The question whether there is a working tree, and what is done if there is one. A program that is
not installed is taken for a no. -/
theorem Meets.inRepository {act : Action Bool} (hm : Meets directory rs act) :
    Meets directory (Request.askTree :: rs) (inRepository directory act) := by
  intro h
  rw [Git.inRepository, outcome_bind, isRepository, Action.outcome_rescue, outcome_bind, outcome_run,
    ← nextReply]
  rcases hr : nextReply h.git.replies with ⟨status, output, errors⟩ | _
  · simp only [outcome_pure]
    split
    · rename_i hthere
      exact hm.of_grants rfl (by rw [hr]; exact hthere)
    · rename_i hthere
      refine (declines_say _ _).of_not_grants rfl ?_
      rw [hr]
      exact Bool.eq_false_iff.2 hthere
  · exact (declines_say _ _).of_not_grants rfl (by rw [hr]; rfl)

/-! ## Commits and resets -/

theorem meets_commitAll (directory : Option Text) (message : Text) :
    Meets directory [Request.demand ["add", "-A"], Request.demand ["commit", "-m", message]]
      (commitAll directory message) := by
  refine meets_run_bind (fun status output errors hs => ?_) fun output errors => ?_
  · exact declines_of_status hs
  · refine meets_run_bind (fun status output errors hs => ?_) fun output errors => meets_pure
    exact declines_of_status hs

theorem meets_discardChanges (directory : Option Text) :
    Meets directory [Request.demand ["reset", "--hard", "HEAD"]] (discardChanges directory) := by
  refine meets_run_bind (fun status output errors hs => ?_) fun output errors => meets_pure
  exact declines_of_status hs

/-! ## Calls that succeed -/

theorem callsMade_prefix (requests : List Request) (replies : List GitReply) :
    callsMade requests replies <+: requests.map Request.command := by
  induction requests generalizing replies with
  | nil => exact List.nil_prefix
  | cons r rs ih =>
    rw [callsMade, List.map_cons, List.cons_prefix_cons]
    refine ⟨rfl, ?_⟩
    split
    · exact ih replies.tail
    · exact List.nil_prefix

theorem all_succeeds_take_succ (replies : List GitReply) (n : Nat) :
    (replies.take (n + 1)).all GitReply.succeeds ↔
      (nextReply replies).succeeds ∧ (replies.tail.take n).all GitReply.succeeds := by
  cases replies with
  | nil => simp [nextReply, GitReply.succeeds]
  | cons reply rest => simp [nextReply]

/-- Where only calls that succeed grant anything, and the last one has to do no more than that, all
requests are granted exactly if all calls are made and succeed. -/
theorem allGranted_iff (hgrants : ∀ r ∈ requests, ∀ reply, r.grants reply → reply.succeeds)
    (hlast : ∀ r ∈ requests.getLast?, ∀ reply : GitReply, reply.succeeds → r.grants reply) :
    allGranted requests replies ↔ callsMade requests replies = requests.map Request.command ∧
      (replies.take (callsMade requests replies).length).all GitReply.succeeds := by
  induction requests generalizing replies with
  | nil => simp [allGranted, callsMade]
  | cons r rs ih =>
    obtain ⟨hr, hrs⟩ := List.forall_mem_cons.1 hgrants
    by_cases hg : r.grants (nextReply replies)
    · have hrest := @ih replies.tail hrs fun last hl => hlast last (List.getLast?_cons.symm ▸ by
        rw [Option.mem_def.1 hl]
        rfl)
      rw [allGranted, callsMade, if_pos hg, List.map_cons, List.cons_inj_right, List.length_cons,
        all_succeeds_take_succ, hg, Bool.true_and, hrest, and_left_comm]
      exact (and_iff_right (hr _ hg)).symm
    · rw [allGranted, callsMade, if_neg hg, Bool.eq_false_iff.2 hg, Bool.false_and]
      refine iff_of_false Bool.false_ne_true ?_
      rintro ⟨hmade, hall⟩
      -- a request that is not granted is not the last one, unless its call fails
      cases rs with
      | nil => exact hg (hlast r rfl _ ((all_succeeds_take_succ replies 0).1 hall).1)
      | cons r' rs => simp at hmade

theorem Meets.runs {act : Action Bool} (hm : Meets directory requests act)
    (hgrants : ∀ r ∈ requests, ∀ reply, r.grants reply → reply.succeeds)
    (hlast : ∀ r ∈ requests.getLast?, ∀ reply : GitReply, reply.succeeds → r.grants reply) :
    Runs directory (requests.map Request.command) act := by
  intro h
  obtain ⟨hgit, hanswers⟩ := hm h
  have hok : (outcome act h).1 = .ok true ↔ allGranted requests h.git.replies := by
    rcases hanswers with hr | ⟨hno, hr⟩
    · rw [hr, Except.ok.injEq]
    · rw [hr, hno]
      simp
  refine ⟨callsMade requests h.git.replies, callsMade_prefix _ _, fun hnone => ?_, ?_, ?_, ?_⟩
  · cases requests with
    | nil => rfl
    | cons r rs => exact absurd hnone (List.cons_ne_nil _ _)
  · rw [hgit, after]
  · rw [hgit, after]
  · exact hok.trans (allGranted_iff hgrants hlast)

theorem succeeds_of_saysTrue {reply : GitReply} (h : saysTrue reply) : reply.succeeds := by
  cases reply with
  | ended status output errors => exact (Bool.and_eq_true_iff.1 h).1
  | missing => cases h

/-- In a working tree, commands that have to succeed are called in turn after the question for it. -/
theorem runs_inRepository {commands : List (List Text)} {act : Action Bool} (hne : commands ≠ [])
    (hm : Meets directory (commands.map Request.demand) act) :
    Runs directory (["rev-parse", "--is-inside-work-tree"] :: commands)
      (inRepository directory act) := by
  have hcommands : (commands.map Request.demand).map Request.command = commands := by
    rw [List.map_map]
    exact List.map_id commands
  have hruns := hm.inRepository.runs (List.forall_mem_cons.2 ⟨fun _ => succeeds_of_saysTrue, ?_⟩) ?_
  · rwa [List.map_cons, hcommands] at hruns
  · rintro r hr reply hg
    obtain ⟨command, -, rfl⟩ := List.mem_map.1 hr
    exact hg
  · obtain ⟨command, rest, rfl⟩ := List.exists_cons_of_ne_nil hne
    rintro r hr reply hs
    rw [List.map_cons, List.getLast?_cons_cons, ← List.map_cons] at hr
    obtain ⟨command', -, rfl⟩ := List.mem_map.1 (List.mem_of_getLast? hr)
    exact hs

end ReplyLedger.Git
