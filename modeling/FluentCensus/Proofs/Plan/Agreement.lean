import FluentCensus.Proofs.Histogram.Count
import FluentCensus.Proofs.Plan.Protocol
import FluentCensus.Proofs.Plan.Report

namespace FluentCensus

open Histogram (Ascending)

def Json.histogram? : Json → Option (List (Int × Int))
  | .object members => members.mapM fun m =>
    match m.2 with
    | .int count => m.1.toInt?.map (·, count)
    | _ => none
  | _ => none

theorem Json.histogram?_ofHistogram (h : Histogram) :
    (Json.ofHistogram h).histogram? = some h.entries := by
  rw [ofHistogram, histogram?]
  induction h.entries with
  | nil => rfl
  | cons e rest ih =>
    rw [List.map_cons, List.mapM_cons, ih]
    simp [intText_toInt?]

namespace Csv

def frequencies (records : List (List (List Char))) : List Int :=
  (records.filterMap rowOf?).map fun row => row.2.2

theorem longestFirst_reverse {s : Survey} (ascending : Ascending s.histogram.entries) :
    longestFirst s = s.histogram.entries.reverse := by
  have distinct : s.histogram.lengths.Nodup := by
    refine (List.pairwise_map.mpr ascending).imp ?_
    exact fun less => ne_of_lt less
  refine List.Perm.eq_of_pairwise ?_ (longestFirst_descending s distinct)
    (List.pairwise_reverse.mpr ascending) ?_
  · intro a b _ _ first second
    exact absurd (first.trans second) (lt_irrefl _)
  · exact (List.mergeSort_perm _ _).trans (List.reverse_perm _).symm

theorem frequencies_records (s : Survey) : sumOf (frequencies (records s)) = s.chains := by
  have rows : (records s).filterMap rowOf? =
      (longestFirst s).map fun e => (s.name.toList, e.1, e.2) := by
    rw [records, List.filterMap_map, ← List.filterMap_eq_map]
    refine List.filterMap_congr fun e _ => ?_
    exact rowOf?_record s e
  have same : ((longestFirst s).map Prod.snd).Perm s.histogram.counts :=
    (List.mergeSort_perm s.histogram.entries _).map Prod.snd
  rw [frequencies, rows, List.map_map, Survey.chains, Histogram.total, ← sumOf_perm same]
  rfl

theorem frequencies_all (surveys : List Survey) :
    sumOf (frequencies (surveys.flatMap records)) = sumOf (surveys.map Survey.chains) := by
  induction surveys with
  | nil => rfl
  | cons s rest ih =>
    have split : frequencies ((s :: rest).flatMap records) =
        frequencies (records s) ++ frequencies (rest.flatMap records) := by
      simp [frequencies]
    rw [split, sumOf_append, frequencies_records, ih]
    rfl

end Csv

theorem Survey.stats_chains {s : Survey} {memory : Nat → Bool} {figures : Stats Float}
    (stats : s.stats memory = .ok figures) : figures.chains = s.chains := by
  rw [Survey.stats, Stats.ofHistogram] at stats
  split at stats
  · rename_i none
    cases stats
    exact none.symm
  · split at stats
    · cases stats
    · cases checked : Stats.checkSize memory s.histogram with
      | error e =>
        rw [checked] at stats
        cases stats
      | ok _ =>
        rw [checked] at stats
        cases stats
        rfl

/-- The CSV rows of a survey are its histogram from the longest chain down. -/
structure Survey.Listed (s : Survey) : Prop where
  ascending : Ascending s.histogram.entries
  rows : (Csv.records s).map Csv.rowOf? =
    s.histogram.entries.reverse.map fun e => some (s.name.toList, e.1, e.2)
  chains : sumOf (Csv.frequencies (Csv.records s)) = s.chains

/-- The object of a project's record has what the survey has. -/
structure Survey.Recorded (s : Survey) (record : Json) : Prop where
  stage : record.get? "stage" = some (.string "project")
  project : record.get? "project" = some (.string s.name)
  files : record.get? "files" = some (.int s.files)
  chains : record.get? "chains" = some (.int s.chains)
  histogram : (record.get? "histogram").bind Json.histogram? = some s.histogram.entries

structure Survey.Described (s : Survey) (entry : Json) : Prop where
  project : entry.get? "project" = some (.string s.name)
  files : entry.get? "files" = some (.int s.files)
  chains : (entry.get? "stats").bind (·.get? "chains") = some (.int s.chains)
  histogram : (entry.get? "histogram").bind Json.histogram? = some s.histogram.entries

theorem Record.Reports.ascending {record : Record} {s : Survey} (reports : record.Reports s) :
    Ascending s.histogram.entries := by
  obtain ⟨lengths, counted, _⟩ := reports.counted
  rw [counted]
  exact Histogram.ofLengths_ascending lengths

theorem Record.Reports.listed {record : Record} {s : Survey} (reports : record.Reports s) :
    s.Listed where
  ascending := reports.ascending
  rows := by
    rw [Csv.records, Csv.longestFirst_reverse reports.ascending, List.map_map]
    exact List.map_congr_left fun e _ => Csv.rowOf?_record s e
  chains := Csv.frequencies_records s

theorem Record.Reports.recorded {record : Record} {s : Survey} (reports : record.Reports s) :
    s.Recorded record.toJson := by
  obtain ⟨lengths, counted, measures⟩ := reports.counted
  have chains : (lengths.length : Int) = s.chains := by
    rw [Survey.chains, counted, Histogram.ofLengths_total]
  exact {
    stage := congrArg (some ∘ Json.string) reports.stage
    project := congrArg (some ∘ optional Json.string) reports.project
    files := congrArg (some ∘ optional Json.int ∘ Measures.files) measures
    chains := by
      rw [← chains]
      exact congrArg (some ∘ optional Json.int ∘ Measures.chains) measures
    histogram := by
      have member : record.toJson.get? "histogram" = some (.ofHistogram s.histogram) :=
        congrArg (some ∘ optional Json.ofHistogram ∘ Measures.histogram) measures
      rw [member]
      exact Json.histogram?_ofHistogram s.histogram }

theorem Summary.projectJson_described {memory : Nat → Bool} {s : Survey} {entry : Json}
    (described : Summary.projectJson memory s = .ok entry) : s.Described entry := by
  obtain ⟨figures, stats, rfl⟩ := Summary.projectJson_ok_iff.mp described
  have chains := Survey.stats_chains stats
  exact ⟨rfl, rfl, congrArg (some ∘ Json.int) chains, Json.histogram?_ofHistogram s.histogram⟩

theorem Summary.json_members {memory : Nat → Bool} {surveys : List Survey} {value : Json}
    (described : Summary.json memory surveys = .ok value) :
    ∃ entries, value.get? "projects" = some (.array entries) ∧
      List.Forall₂ Survey.Described surveys entries ∧
      value.get? "total_files" = some (.int (sumOf (surveys.map Survey.files))) ∧
      value.get? "total_chains" = some (.int (sumOf (surveys.map Survey.chains))) := by
  obtain ⟨entries, listed, rfl⟩ := Summary.json_ok_iff.mp described
  exact ⟨entries, rfl, (mapM_ok listed).imp fun _ _ => projectJson_described, rfl, rfl⟩

namespace Plan

/-- The CSV file, the trace, the summary and what is returned are of the same surveys. -/
theorem run_agrees {plan : Plan} {host after : Host} {path destination : Path}
    {surveys : List Survey} (rooted : host.tree.Rooted) (asked : plan.tracePath = some path)
    (summarised : plan.summary = .file destination)
    (ran : plan.run.run.run host = (.ok surveys, after))
    (apart : ∀ place, after.tree.Leads plan.outputPath place → ¬ after.tree.Leads path place)
    (beside : ∀ place, after.tree.Leads destination place →
      ¬ after.tree.Leads plan.outputPath place ∧ ¬ after.tree.Leads path place) :
    ∃ (csv trace summary : Location) (added : List UInt8) (records : List Json)
      (total value : Json) (entries : List Json),
      after.tree.Leads plan.outputPath csv ∧ after.tree.Leads path trace ∧
      after.tree.Leads destination summary ∧
      Csv.read? (Utf8.decode (after.tree.bytesAt csv)) =
        some (Csv.titles :: surveys.flatMap Csv.records) ∧
      after.tree.bytesAt trace = host.tree.bytesAt trace ++ added ∧
      Json.Lines added (records ++ [total]) ∧
      Json.read? (Utf8.decode (after.tree.bytesAt summary)) = some value ∧
      value.get? "projects" = some (.array entries) ∧
      (plan.projects.run.run host).1 = .ok (surveys.map Survey.path) ∧
      (∀ s ∈ surveys, s.Listed) ∧ List.Forall₂ Survey.Recorded surveys records ∧
      List.Forall₂ Survey.Described surveys entries ∧
      total.get? "stage" = some (.string "run_total") ∧
      (let files := some (Json.int (sumOf (surveys.map Survey.files)))
       total.get? "files" = files ∧ value.get? "total_files" = files) ∧
      let chains := some (Json.int (sumOf (Csv.frequencies (surveys.flatMap Csv.records))))
      total.get? "chains" = chains ∧ value.get? "total_chains" = chains := by
  obtain ⟨projects, traced⟩ := Traced.of_ok rooted asked ran
  obtain ⟨middle, tree, final, _, verdict, written, total, _, _, ends, totalled, concluded⟩ :=
    traced.outcome rooted
  obtain ⟨rfl, errors, rfl⟩ := ends.ran ran
  obtain ⟨logged, summary⟩ := concluded.returned surveys rfl
  obtain ⟨value, place, described, summaryLeads, summaryBytes⟩ := summary destination summarised
  cases written with
  | error fault => cases logged
  | ok _ =>
  obtain rfl : verdict = .ok surveys := logged
  obtain ⟨paths, csv, csvLeads, holds⟩ := totalled.returned surveys rfl
  rcases totalled.reported with ⟨_, fault, failed⟩ | ⟨records, adds, projectRecords, each⟩
  · cases failed
  have reports := each surveys rfl
  obtain ⟨trace, traceLeads, writes, _⟩ := totalled.added
  have last : FileTree.Later final final := .refl concluded.later.rooted
  have kept := writes.toLater.trans concluded.later.toLater
  replace csvLeads := kept.leads csvLeads
  replace traceLeads := concluded.later.leads traceLeads
  -- The summary comes last, so it could have replaced what the other outputs held.
  have unsummarised {place : Location} (other : ¬ final.Leads destination place) :
      final.bytesAt place = tree.bytesAt place := by
    refine concluded.later.elsewhere last ?_
    rw [summarised]
    simpa [Summary.Destination.paths] using other
  have csvBytes : final.bytesAt csv = Utf8.encode (Csv.document surveys) := by
    rw [unsummarised fun also => (beside csv also).1 csvLeads,
      writes.elsewhere concluded.later.toLater (by simpa using apart csv csvLeads)]
    exact holds final kept (by simpa using apart csv csvLeads)
  obtain ⟨before, ending, first⟩ := totalled.bytes adds concluded.later.toLater traceLeads
  have traceBytes : final.bytesAt trace = host.tree.bytesAt trace ++
      Utf8.encode ((records ++ [total]).flatMap Record.line) := by
    rw [unsummarised fun also => (beside trace also).2 traceLeads, ending,
      first fun also => apart trace also traceLeads, List.flatMap_append, Utf8.encode_append,
      List.flatMap_singleton, List.append_assoc]
  have proper : ∀ record ∈ records ++ [total], record.Proper := by
    refine List.forall_mem_append.mpr ⟨fun record member => ?_,
      List.forall_mem_singleton.mpr totalled.proper⟩
    obtain ⟨_, _, _, same⟩ := projectRecords record member
    exact Totalled.project_proper same
  have lines := Record.lines_read proper
  rw [List.map_append] at lines
  have both :
      List.Forall₂ (fun s record => s.Listed ∧ s.Recorded record.toJson) surveys records := by
    refine List.Forall₂.flip (reports.imp fun record s told => ?_)
    exact ⟨told.listed, told.recorded⟩
  obtain ⟨listed, recordings⟩ := (List.forall₂_and_left _ _).mp both
  have readSummary : Json.read? (Utf8.decode (final.bytesAt place)) = some value := by
    rw [summaryBytes, Utf8.decode_encode]
    exact Json.read?_indented (Summary.json_proper described fun s member =>
      (listed s member).ascending.nodup)
  obtain ⟨entries, projectsOf, all, files, chains⟩ := Summary.json_members described
  obtain ⟨_, _, rfl, _, measured⟩ := totalled.recorded
  obtain rfl := measured surveys rfl
  refine ⟨csv, trace, place, _, records.map Record.toJson, _, value, entries, csvLeads, traceLeads,
    summaryLeads, ?_, traceBytes, lines, readSummary, projectsOf, ?_, listed, ?_, all, rfl,
    ⟨rfl, files⟩, ?_, ?_⟩
  · rw [csvBytes, Utf8.decode_encode, Csv.read?_surveys]
  · rw [paths]
    exact traced.listed
  · exact List.forall₂_map_right_iff.mpr recordings
  · rw [Csv.frequencies_all]
    rfl
  · rw [chains, Csv.frequencies_all]

def repeatedTree : FileTree where
  root := .directory [
    ("c", .directory [
      ("b", .directory [("B.java", .file (Utf8.encode "h();".toList))]),
      ("a", .directory [("A.java", .file (Utf8.encode "f().g();".toList))])]),
    ("o", .file [0]), ("s", .file [1]), ("t", .file [])]

def repeatedPlan : Plan where
  projectDir := ⟨.relative, ["c"]⟩
  outputPath := ⟨.relative, ["o"]⟩
  summary := .file ⟨.relative, ["s"]⟩
  tracePath := some ⟨.relative, ["t"]⟩

def repeatedStage : Stage where
  plan := repeatedPlan
  path := ⟨.relative, ["t"]⟩
  runId := ""
  clock := fun _ => 0
  readings := 0
  csv := ["o"]
  trace := ["t"]
  begun := repeatedTree.putBytes ["o"] []
  opened := repeatedTree.putBytes ["o"] []

def repeatedFindings : List Finding := [
  ⟨⟨.relative, ["c", "a"]⟩, [⟨.relative, ["c", "a", "A.java"]⟩], [2]⟩,
  ⟨⟨.relative, ["c", "b"]⟩, [⟨.relative, ["c", "b", "B.java"]⟩], [1]⟩]

theorem repeated_staged :
    repeatedPlan.stage ⟨.relative, ["t"]⟩ { tree := repeatedTree } = .ok repeatedStage ∧
    repeatedTree.subdirectories repeatedPlan.projectDir =
      .ok [⟨.relative, ["c", "a"]⟩, ⟨.relative, ["c", "b"]⟩] ∧
    repeatedStage.Usable := by
  refine ⟨by cbv, by cbv, by decide, fun _ _ => rfl, fun _ _ => rfl, ?_⟩
  exact ⟨repeatedStage.opened, ["s"], repeatedStage.opened, by cbv, by cbv, by decide, by decide,
    fun _ _ => rfl⟩

theorem repeated_found (csv trace : List UInt8) :
    (repeatedStage.after []).finding [] ⟨.relative, ["c", "a"]⟩ =
      .ok ⟨⟨.relative, ["c", "a"]⟩, [⟨.relative, ["c", "a", "A.java"]⟩], [2]⟩ ∧
    ((repeatedStage.opened.putBytes ["o"] csv).putBytes ["t"] trace).finding []
        ⟨.relative, ["c", "b"]⟩ =
      .ok ⟨⟨.relative, ["c", "b"]⟩, [⟨.relative, ["c", "b", "B.java"]⟩], [1]⟩ := by
  have entered : repeatedStage.opened.machine.nesting ≠ 0 := by decide
  constructor
  · have found : (repeatedStage.after []).find ⟨.relative, ["c", "a"]⟩ = .ok (["c", "a"],
        .directory [("A.java", .file (Utf8.encode "f().g();".toList))]) := by cbv
    have text : (repeatedStage.after []).source (Path.child ⟨.relative, ["c", "a"]⟩ "A.java") =
        .ok "f().g();".toList := by cbv
    rw [FileTree.finding_single found rfl entered (by cbv), if_pos ⟨by decide, rfl⟩, text]
    cbv
  · have found : ((repeatedStage.opened.putBytes ["o"] csv).putBytes ["t"] trace).find
        ⟨.relative, ["c", "b"]⟩ =
        .ok (["c", "b"], .directory [("B.java", .file (Utf8.encode "h();".toList))]) := by cbv
    have text : ((repeatedStage.opened.putBytes ["o"] csv).putBytes ["t"] trace).source
        (Path.child ⟨.relative, ["c", "b"]⟩ "B.java") = .ok "h();".toList := by cbv
    rw [FileTree.finding_single found rfl entered (by cbv), if_pos ⟨by decide, rfl⟩, text]
    cbv

theorem repeated_told :
    ∀ finding ∈ repeatedFindings, ∃ figures,
      finding.survey.stats repeatedStage.begun.machine.memory = .ok figures := by
  have two : Histogram.ofLengths [2] = ⟨[(2, 1)]⟩ := by cbv
  have one : Histogram.ofLengths [1] = ⟨[(1, 1)]⟩ := by cbv
  simp only [repeatedFindings, List.forall_mem_cons, List.not_mem_nil, false_implies, implies_true,
    and_true, Survey.stats, Finding.survey, two, one]
  exact ⟨⟨_, rfl⟩, _, rfl⟩

theorem repeated_measured :
    repeatedStage.measure [] [⟨.relative, ["c", "a"]⟩, ⟨.relative, ["c", "b"]⟩] =
      (repeatedFindings, none) := by
  have ignored : repeatedStage.plan.ignored = [] := rfl
  have first := (repeated_found [] []).1
  have second (finding : Finding) :
      (repeatedStage.after [finding]).finding [] _ = _ := (repeated_found _ _).2
  obtain ⟨⟨_, two⟩, ⟨_, one⟩, _⟩ := by
    simpa only [repeatedFindings, List.forall_mem_cons] using repeated_told
  rw [Stage.measure, ignored, first]
  dsimp only [List.nil_append]
  rw [two]
  dsimp only
  rw [Stage.measure, ignored, second]
  dsimp only
  rw [one]
  rfl

theorem repeated_run :
    ∃ after, repeatedPlan.run.run.run { tree := repeatedTree } =
      (.ok (repeatedFindings.map Finding.survey), after) := by
  have rooted : ({ tree := repeatedTree } : Host).tree.Rooted := ⟨_, rfl⟩
  obtain ⟨staged, listed, usable⟩ := repeated_staged
  have plain := Machine.encodable_all (m := repeatedStage.begun.machine) rfl
  obtain ⟨after, ends, _⟩ := run_complete rooted rfl rfl listed staged usable
    ⟨⟨plain _, plain _, plain _⟩, fun _ _ => plain _⟩ repeated_measured
  obtain ⟨errors, ran⟩ := ends ""
  exact ⟨_, ran⟩

theorem run_agrees_repeated :
    ∃ (after : Host) (records : List Json) (total value : Json) (entries : List Json),
      repeatedTree.Rooted ∧
      repeatedPlan.run.run.run { tree := repeatedTree } =
        (.ok (repeatedFindings.map Finding.survey), after) ∧
      Csv.read? (Utf8.decode (after.tree.bytesAt ["o"])) = some
        [Csv.titles, [['a'], ['2'], ['1']], [['b'], ['1'], ['1']]] ∧
      Json.Lines (after.tree.bytesAt ["t"]) (records ++ [total]) ∧
      Json.read? (Utf8.decode (after.tree.bytesAt ["s"])) = some value ∧
      value.get? "projects" = some (.array entries) ∧
      List.Forall₂ Survey.Recorded (repeatedFindings.map Finding.survey) records ∧
      List.Forall₂ Survey.Described (repeatedFindings.map Finding.survey) entries ∧
      total.get? "chains" = some (.int 2) ∧ value.get? "total_chains" = some (.int 2) := by
  have rooted : ({ tree := repeatedTree } : Host).tree.Rooted := ⟨_, rfl⟩
  obtain ⟨after, ran⟩ := repeated_run
  obtain ⟨projects, traced⟩ := Traced.of_ok rooted rfl ran
  obtain ⟨middle, tree, final, _, _, _, _, _, _, ends, totalled, concluded⟩ :=
    traced.outcome rooted
  obtain ⟨_, errors, rfl⟩ := ends.ran ran
  have later : FileTree.Later repeatedTree final :=
    (totalled.writes.toLater.trans (totalled.appends.later totalled.writes.rooted)).trans
      concluded.later.toLater
  have csvLeads : final.Leads ⟨.relative, ["o"]⟩ ["o"] :=
    later.leads ⟨by cbv, [0], by cbv⟩
  have summaryLeads : final.Leads ⟨.relative, ["s"]⟩ ["s"] :=
    later.leads ⟨by cbv, [1], by cbv⟩
  have traceLeads : final.Leads ⟨.relative, ["t"]⟩ ["t"] :=
    later.leads ⟨by cbv, [], by cbv⟩
  have apart (place : Location) (leads : final.Leads ⟨.relative, ["o"]⟩ place) :
      ¬ final.Leads ⟨.relative, ["t"]⟩ place := by
    obtain rfl := csvLeads.unique leads
    exact fun also => absurd (traceLeads.unique also) (by decide)
  have beside (place : Location) (leads : final.Leads ⟨.relative, ["s"]⟩ place) :
      ¬ final.Leads ⟨.relative, ["o"]⟩ place ∧ ¬ final.Leads ⟨.relative, ["t"]⟩ place := by
    obtain rfl := summaryLeads.unique leads
    exact ⟨fun also => absurd (csvLeads.unique also) (by decide),
      fun also => absurd (traceLeads.unique also) (by decide)⟩
  obtain ⟨csv, trace, summary, added, records, total, value, entries, csvAlso, traceAlso,
    summaryAlso, rows, traceBytes, lines, read, projectsOf, _, _, recorded, described, _, _, chains,
    also⟩ := run_agrees rooted rfl rfl ran apart beside
  obtain rfl := csvLeads.unique csvAlso
  obtain rfl := traceLeads.unique traceAlso
  obtain rfl := summaryLeads.unique summaryAlso
  have before : repeatedTree.bytesAt ["t"] = [] := by cbv
  rw [before, List.nil_append] at traceBytes
  exact ⟨_, records, total, value, entries, rooted, ran, rows.trans (by cbv), traceBytes ▸ lines,
    read, projectsOf, recorded, described, chains.trans (by cbv), also.trans (by cbv)⟩

end Plan

end FluentCensus
