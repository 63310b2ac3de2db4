import FluentCensus.Proofs.Plan.Report

namespace FluentCensus

open Host (Contained Ends)

namespace Plan

variable {plan : Plan} {host : Host}

theorem run_untraced {projects : List Path} {result : Except Fault (List Survey)} {after : Host}
    (asked : plan.tracePath = none) (listed : Ends plan.projects host (.ok projects) host)
    (ends : Ends (plan.surveyUntraced projects >>= plan.conclude) host result after) :
    Ends plan.run host result after := by
  refine .bind listed (.bind (.progress _ _ host) (.bind (.progress _ _ host) ?_))
  rw [asked]
  exact ends

theorem run_untraced_raises {projects : List Path} (rooted : host.tree.Rooted)
    (asked : plan.tracePath = none) (listed : Ends plan.projects host (.ok projects) host) :
    ∃ result after, Ends plan.run host result after ∧ ∀ fault, fault.ofFiles = true →
      result = .error fault → after.tree.Stopped plan.outputPath fault := by
  obtain ⟨middle, readings, verdict, surveyed, settled⟩ :=
    Ends.surveyUntraced_cases plan host rooted projects
  obtain ⟨tree, result, ends, concluded⟩ := concluded plan surveyed settled.writes.rooted
  refine ⟨result, _, run_untraced asked listed ends, fun fault files raised => ?_⟩
  have failed := concluded.contained fault raised files
  obtain ⟨rfl, _⟩ := concluded.stopped fault failed
  exact settled.raised fault failed files

section Traced

variable {path : Path} {projects : List Path} {middle tree after : FileTree}
  {verdict result : Except Fault (List Survey)} {written : Except Fault Unit} {total : Record}
  (totalled : plan.Totalled host path projects middle tree verdict written total)

include totalled

theorem Totalled.raises_files {fault : Fault} (files : fault.ofFiles = true)
    (raised : (written >>= fun _ => verdict) = .error fault) :
    tree.openForWriting path = .error fault ∨
      ∃ stopped, (stopped = plan.outputPath ∨ stopped = path) ∧ tree.Stopped stopped fault := by
  cases written with
  | error other =>
    cases raised
    cases totalled.appends with
    | closed refused => exact .inl refused
    | garbled _ _ unencodable =>
      rw [Machine.unencodable?_ofFiles unencodable] at files
      cases files
    | stopped stopped _ => exact .inr ⟨path, .inr rfl, stopped⟩
  | ok _ =>
    obtain ⟨_, _, writes, _⟩ := totalled.added
    exact .inr ⟨_, .inl rfl, (totalled.raised fault raised files).later writes.toLater⟩

theorem Totalled.closed {fault : Fault} (closed : after.openForWriting path = .error fault)
    (concluded : plan.Concluded tree after (written >>= fun _ => verdict) result) :
    result = .error fault := by
  have unopened {place : Location} (leads : tree.Leads path place) : False := by
    cases (concluded.later.leads leads).opens.symm.trans closed
  cases written with
  | ok _ =>
    obtain ⟨_, leads, _, _⟩ := totalled.added
    exact (unopened leads).elim
  | error other =>
    obtain ⟨rfl, raised⟩ := concluded.stopped other rfl
    cases totalled.appends with
    | closed refused =>
      cases refused.symm.trans closed
      exact raised
    | garbled leads _ _ => exact (unopened leads).elim
    | stopped stopped _ =>
      obtain ⟨_, _, _, _, _, leads, _⟩ := stopped
      exact (unopened leads).elim

end Traced

/-- A cause in the file system leaves a run in its own words where it is known of a single project's
    path before anything else is done, where the trace, for which there is a directory, cannot be
    opened, and otherwise only where it stops a write to the CSV file or to the trace. -/
theorem run_raises_files {result : Except Fault (List Survey)} {after : Host} {fault : Fault}
    (rooted : host.tree.Rooted) (ran : plan.run.run.run host = (result, after))
    (files : fault.ofFiles = true) :
    let early := plan.single = true ∧ host.tree.isDirectory plan.projectDir = .error fault
    let closed := ∃ path projects, plan.Traced host path projects ∧
      after.tree.openForWriting path = .error fault
    (early ∨ closed → result = .error fault) ∧
    (result = .error fault → early ∨ closed ∨
      ∃ path, (path = plan.outputPath ∨ plan.tracePath = some path) ∧
        after.tree.Stopped path fault) := by
  intro early closed
  obtain ⟨listing, projected, single⟩ := Ends.projects_cases plan host
  have reached := projected.result
  have early_iff : listing = .error fault ↔ early := single fault files
  cases listing with
  | error other =>
    have ends : Ends plan.run host (.error other) host := .bind_error projected
    obtain ⟨rfl, _⟩ := ends.ran ran
    rw [Except.error.injEq] at early_iff
    refine ⟨?_, fun same => .inl (early_iff.mp (Except.error.inj same))⟩
    rintro (first | ⟨path, projects, traced, _⟩)
    · rw [early_iff.mpr first]
    · cases reached.symm.trans traced.listed
  | ok projects =>
    have late : ¬ early := fun first => by cases early_iff.mpr first
    simp only [late, false_or]
    cases asked : plan.tracePath with
    | none =>
      obtain ⟨_, _, ends, stopped⟩ := run_untraced_raises rooted asked projected
      obtain ⟨rfl, errors, rfl⟩ := ends.ran ran
      refine ⟨?_, fun same => .inr ⟨_, .inl rfl, stopped fault files same⟩⟩
      rintro ⟨path, _, traced, _⟩
      cases asked.symm.trans traced.asked
    | some path =>
      by_cases housed : ∃ above, host.tree.withDirectories path.parent = .ok above
      · have traced : plan.Traced host path projects := ⟨asked, reached, housed⟩
        obtain ⟨_, tree, final, _, _, _, _, _, _, ends, totalled, concluded⟩ :=
          traced.outcome rooted
        obtain ⟨rfl, errors, rfl⟩ := ends.ran ran
        constructor
        · rintro ⟨_, _, also, blocked⟩
          cases asked.symm.trans also.asked
          exact totalled.closed blocked concluded
        · intro same
          have failed := concluded.contained fault same files
          obtain ⟨rfl, _⟩ := concluded.stopped fault failed
          refine (totalled.raises_files files failed).imp (fun blocked => ⟨path, projects, traced,
            blocked⟩) ?_
          rintro ⟨stopped, place, write⟩
          exact ⟨stopped, place.imp_right fun same => congrArg some same.symm, write⟩
      · -- The message that there is no directory is given before the trace is opened.
        obtain ⟨other, last, surveyed, told⟩ := surveyTraced_unhoused projects rooted housed
        obtain ⟨rfl, _⟩ := (run_traced asked projected (.bind_error surveyed)).ran ran
        constructor
        · rintro ⟨_, _, traced, _⟩
          cases asked.symm.trans traced.asked
          exact absurd traced.housed housed
        · intro same
          cases same
          cases told.symm.trans files

def blockedPlan : Plan where
  projectDir := ⟨.relative, ["c"]⟩
  outputPath := ⟨.relative, ["o"]⟩
  tracePath := some ⟨.relative, ["t"]⟩
  quiet := true

def blockedHost : Host where
  tree := { root := .directory [("c", .directory []), ("t", .directory [])] }

def blockedFault : Fault := .refused .isDirectory ⟨.relative, ["t"]⟩

def blockedEnd : Host :=
  { blockedHost with
    tree := blockedHost.tree.putBytes ["o"] (Utf8.encode (Csv.document []))
    readings := 2
    made := 1 }

set_option maxRecDepth 2000 in
theorem blocked_run : blockedPlan.run.run.run blockedHost = (.error blockedFault, blockedEnd) := by
  cbv

theorem run_raises_files_blocked :
    ∃ result after, blockedHost.tree.Rooted ∧
      blockedPlan.run.run.run blockedHost = (result, after) ∧ blockedFault.ofFiles = true ∧
      result = .error blockedFault := by
  have rooted : blockedHost.tree.Rooted := ⟨_, rfl⟩
  have traced : blockedPlan.Traced blockedHost ⟨.relative, ["t"]⟩ [] :=
    ⟨rfl, by cbv, blockedHost.tree, by cbv⟩
  have closed : blockedEnd.tree.openForWriting ⟨.relative, ["t"]⟩ = .error blockedFault := by cbv
  have raised := (run_raises_files rooted blocked_run rfl).1 (.inr ⟨_, _, traced, closed⟩)
  exact ⟨_, blockedEnd, rooted, blocked_run, rfl, raised⟩

def fullHost : Host :=
  { blockedHost with
    tree := { blockedHost.tree with machine := { stops := fun _ _ _ => some (.full, 0) } } }

set_option maxRecDepth 2000 in
/-- Neither the survey nor the CSV file goes wrong at first, but the run does not end with a
    message. Without a trace it is the CSV file's last write that a full disk stops. -/
theorem run_blocked_escapes :
    (blockedPlan.run.run.run blockedHost).1 = .error blockedFault ∧
    (∀ message, blockedFault ≠ .stop message) ∧
    ({ blockedPlan with tracePath := none }.run.run.run blockedHost).1 = .ok [] ∧
    ({ blockedPlan with tracePath := none }.run.run.run fullHost).1 = .error (.unwritten .full) :=
  ⟨congrArg Prod.fst blocked_run, fun _ => nofun, by cbv, by cbv⟩

end Plan

end FluentCensus
