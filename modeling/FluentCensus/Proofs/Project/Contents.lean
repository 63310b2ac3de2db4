import FluentCensus.Proofs.Histogram.Merge
import FluentCensus.Proofs.Plan.Contained
import FluentCensus.Proofs.Plan.Survey
import FluentCensus.Proofs.Tree.Discovery

namespace FluentCensus

namespace FileTree

/-- These are the contents of the source files of a project, each file once, in any order. -/
def Contents (tree : FileTree) (ignored : List String) (project : Path)
    (contents : List (List UInt8)) : Prop :=
  ∃ place entries sources, tree.find project = .ok (place, .directory entries) ∧ sources.Nodup ∧
    (∀ source, source ∈ sources ↔
      tree.IsSource ignored (spelling project) project (.directory entries) source) ∧
    List.Forall₂ (fun source bytes => tree.read (project.below source) = .ok bytes) sources contents

/-- The search for the source files of a project succeeds, and each of them can be read. -/
structure Readable (tree : FileTree) (ignored : List String) (project : Path) : Prop where
  rooted : tree.Rooted
  distinct : tree.root.Distinct
  readable : ∃ place entries, tree.find project = .ok (place, .directory entries) ∧
    tree.Enterable ignored (spelling project) tree.machine.nesting project (.directory entries) ∧
    ∀ source, tree.IsSource ignored (spelling project) project (.directory entries) source →
      ∃ bytes, tree.read (project.below source) = .ok bytes

variable {tree : FileTree} {ignored : List String} {project : Path} {contents : List (List UInt8)}

theorem mapM_source {sources : List Location} (read : List.Forall₂ (fun source bytes =>
      tree.read (project.below source) = .ok bytes) sources contents) :
    (sources.map project.below).mapM tree.source = .ok (contents.map Utf8.decode) := by
  induction read with
  | nil => rfl
  | cons first _ ih =>
    rw [List.map_cons, List.mapM_cons, source, first, ok_bind, ih]
    rfl

theorem Readable.listed (readable : tree.Readable ignored project) :
    ∃ place entries sources, tree.find project = .ok (place, .directory entries) ∧
      tree.javaFiles ignored project = .ok (sources.map project.below) ∧
      tree.Sources ignored (spelling project) project (.directory entries) sources := by
  obtain ⟨place, entries, found, enterable, _⟩ := readable.readable
  have distinct : (Node.directory entries).Distinct := readable.distinct.at? (find_at? found)
  obtain ⟨files, walked⟩ := (walk_ok distinct).mpr enterable
  obtain ⟨sources, rfl, all⟩ := walk_sources distinct walked
  exact ⟨place, entries, sources, found, (javaFiles_directory found ignored).trans walked, all⟩

theorem Readable.exists_contents (readable : tree.Readable ignored project) :
    ∃ contents, tree.Contents ignored project contents := by
  obtain ⟨place, entries, sources, found, _, all⟩ := readable.listed
  obtain ⟨_, _, also, _, able⟩ := readable.readable
  cases found.symm.trans also
  obtain ⟨contents, read⟩ := mapM_ok_iff.mpr fun source member =>
    able source ((all.complete source).mp member)
  exact ⟨contents, place, entries, sources, found, all.nodup, all.complete, mapM_ok read⟩

theorem Readable.finding (readable : tree.Readable ignored project)
    (holds : tree.Contents ignored project contents) : ∃ finding,
      tree.finding ignored project = .ok finding ∧ finding.files.length = contents.length ∧
        finding.lengths.Perm
          (contents.flatMap fun bytes => (chainCounts (Utf8.decode bytes)).map Int.ofNat) := by
  obtain ⟨place, entries, sources, found, files, all⟩ := readable.listed
  obtain ⟨_, _, listed, also, once, complete, read⟩ := holds
  cases found.symm.trans also
  have same : sources.Perm listed := by
    rw [List.perm_ext_iff_of_nodup all.nodup once]
    exact fun source => (all.complete source).trans (complete source).symm
  obtain ⟨texts, now, reordered⟩ := List.perm_comp_forall₂ same read
  let lengths (bytes : List UInt8) : List Int := (chainCounts (Utf8.decode bytes)).map Int.ofNat
  have finding : tree.finding ignored project =
      .ok ⟨project, sources.map project.below, texts.flatMap lengths⟩ := by
    rw [FileTree.finding, files, ok_bind, Project.lengthsOf, mapM_source now, ok_bind,
      List.flatMap_map]
    rfl
  refine ⟨_, finding, ?_, reordered.flatMap_right _⟩
  rw [List.length_map, now.length_eq, reordered.length_eq]

theorem Contents.perm {others : List (List UInt8)} (holds : tree.Contents ignored project contents)
    (same : others.Perm contents) : tree.Contents ignored project others := by
  obtain ⟨place, entries, sources, found, once, complete, read⟩ := holds
  obtain ⟨listed, now, reordered⟩ := List.perm_comp_forall₂ same (List.Forall₂.flip read)
  have apart : listed.Nodup := reordered.symm.nodup_iff.mp once
  refine ⟨place, entries, listed, found, apart, fun source => ?_, now.flip⟩
  rw [reordered.mem_iff, complete]

end FileTree

namespace Project

/-- A survey can read the source files, and write its record where a tracer is in force. -/
structure Surveyable (host : Host) (project : Path) (options : Options) : Prop where
  readable : host.tree.Readable options.ignored project
  traced : ∀ tracer, host.tracer? = some tracer →
    (∃ place, tracer.Writable host.tree place) ∧
      host.tree.machine.encodable (options.nameFor project).toList = true

theorem merge_contents (contents : List (List UInt8)) :
    .merge (contents.map fun bytes => chainHistogram (Utf8.decode bytes)) =
      Histogram.ofLengths
        (contents.flatMap fun bytes => (chainCounts (Utf8.decode bytes)).map Int.ofNat) := by
  rw [List.flatMap_def, ← Histogram.merge_ofLengths, List.map_map]
  rfl

variable {host : Host} {project : Path} {options : Options} {contents : List (List UInt8)}

theorem Surveyable.ends (able : Surveyable host project options) :
    ∃ after, Host.Ends (survey project options) host
      ((host.tree.finding options.ignored project).map (·.named (options.nameFor project)))
      after := by
  cases tracing : host.tracer? with
  | none => exact ⟨host, .survey_untraced tracing project options⟩
  | some tracer =>
    obtain ⟨⟨place, writable⟩, plain⟩ := able.traced tracer tracing
    obtain ⟨made, opened⟩ := writable.opens
    exact ⟨_, (Host.Ends.survey_written able.readable.rooted tracing writable opened project
      options plain).2⟩

theorem Surveyable.survey (able : Surveyable host project options)
    (holds : host.tree.Contents options.ignored project contents) :
    ∃ s after, (survey project options).run.run host = (.ok s, after) ∧
      s.files = contents.length ∧
      s.histogram = .merge (contents.map fun bytes => chainHistogram (Utf8.decode bytes)) := by
  obtain ⟨finding, found, files, lengths⟩ := able.readable.finding holds
  obtain ⟨after, ends⟩ := able.ends
  rw [found] at ends
  obtain ⟨errors, ran⟩ := ends host.errors
  refine ⟨_, _, ran, congrArg Int.ofNat files, ?_⟩
  rw [merge_contents]
  exact Histogram.ofLengths_perm lengths

/-- The histogram of a project is the sum of those of its source files. It and the number of files
    depend on the contents of the files and on nothing else. -/
theorem survey_contents (able : Surveyable host project options) :
    (∃ contents, host.tree.Contents options.ignored project contents) ∧
    ∀ contents, host.tree.Contents options.ignored project contents →
      ∃ s after, (survey project options).run.run host = (.ok s, after) ∧
        s.files = contents.length ∧
        s.histogram = .merge (contents.map fun bytes => chainHistogram (Utf8.decode bytes)) ∧
        s.chains = (contents.flatMap fun bytes => chainCounts (Utf8.decode bytes)).length ∧
        ∀ (other : Host) (project : Path) (options : Options) (others : List (List UInt8)),
          Surveyable other project options →
          other.tree.Contents options.ignored project others → others.Perm contents →
          ∃ s' after', (survey project options).run.run other = (.ok s', after') ∧
            s'.files = s.files ∧ s'.histogram = s.histogram := by
  refine ⟨able.readable.exists_contents, fun contents holds => ?_⟩
  obtain ⟨s, after, ran, files, histogram⟩ := able.survey holds
  refine ⟨s, after, ran, files, histogram, ?_, ?_⟩
  · rw [Survey.chains, histogram, merge_contents, Histogram.ofLengths_total, ← List.map_flatMap,
      List.length_map]
  · intro other project options others able holds same
    obtain ⟨s', after', ran, number, sum⟩ := able.survey (holds.perm same.symm)
    exact ⟨s', after', ran, number.trans files.symm, sum.trans histogram.symm⟩

def pairEntries : List (String × Node) :=
  [("B.java", .file [46, 98, 40, 41]), ("A.java", .file [97, 40, 41])]

def pairTree : FileTree where
  root := .directory [("p", .directory pairEntries)]

theorem pair_leaf {name : String} {child : Node}
    (found : (Node.directory pairEntries).child? name = some child) :
    (name = "B.java" ∨ name = "A.java") ∧ ∃ bytes, child = .file bytes := by
  have listed := Node.mem_of_lookup found
  simp only [pairEntries, List.mem_cons, Prod.mk.injEq, List.not_mem_nil, or_false] at listed
  rcases listed with ⟨rfl, rfl⟩ | ⟨rfl, rfl⟩
  · exact ⟨.inl rfl, _, rfl⟩
  · exact ⟨.inr rfl, _, rfl⟩

theorem pair_sources (source : Location) :
    source ∈ [["B.java"], ["A.java"]] ↔
      pairTree.IsSource [] (FileTree.spelling ⟨.relative, ["p"]⟩) ⟨.relative, ["p"]⟩
        (.directory pairEntries) source := by
  constructor
  · rintro (_ | ⟨_, _ | ⟨_, _⟩⟩)
    · exact ⟨[], "B.java", _, rfl, by cbv, rfl, by decide, nofun⟩
    · exact ⟨[], "A.java", _, rfl, by cbv, rfl, by decide, nofun⟩
    · contradiction
  · rintro ⟨above, name, leaf, rfl, found, _, _, _⟩
    cases above with
    | nil =>
      obtain ⟨child, looked, _⟩ := Option.bind_eq_some_iff.mp found
      rcases (pair_leaf looked).1 with rfl | rfl <;> simp
    | cons directory above =>
      obtain ⟨child, looked, below⟩ := Option.bind_eq_some_iff.mp found
      obtain ⟨_, bytes, rfl⟩ := pair_leaf looked
      cases above <;> cases below

theorem pair_surveyable : Surveyable { tree := pairTree } ⟨.relative, ["p"]⟩ {} := by
  have distinct : pairTree.root.Distinct := by
    simp [pairTree, pairEntries, Node.distinct_directory, Node.Distinct.file]
  refine ⟨⟨⟨_, rfl⟩, distinct, ["p"], pairEntries, by cbv, ?_, ?_⟩, fun _ => nofun⟩
  · refine FileTree.enterable_directory.mpr ⟨rfl, fun name child found _ => ?_⟩
    obtain ⟨_, bytes, rfl⟩ := pair_leaf found
    exact FileTree.enterable_leaf (fun _ => rfl) rfl _
  · intro source listed
    rcases (pair_sources source).mpr listed with _ | ⟨_, _ | ⟨_, _⟩⟩
    · exact ⟨[46, 98, 40, 41], by cbv⟩
    · exact ⟨[97, 40, 41], by cbv⟩
    · contradiction

theorem survey_contents_pair :
    Surveyable { tree := pairTree } ⟨.relative, ["p"]⟩ {} ∧
    ∃ s after, (survey ⟨.relative, ["p"]⟩).run.run { tree := pairTree } = (.ok s, after) ∧
      s.files = 2 ∧ s.histogram = ⟨[(1, 2)]⟩ := by
  obtain ⟨_, counted⟩ := @survey_contents _ _ {} pair_surveyable
  obtain ⟨s, after, ran, files, histogram, _⟩ := counted [[46, 98, 40, 41], [97, 40, 41]]
    ⟨["p"], pairEntries, [["B.java"], ["A.java"]], by cbv, by decide, pair_sources,
      .cons (by cbv) (.cons (by cbv) .nil)⟩
  refine ⟨pair_surveyable, s, after, ran, files, ?_⟩
  have first : chainCounts (Utf8.decode [46, 98, 40, 41]) = [1] := by decide
  have second : chainCounts (Utf8.decode [97, 40, 41]) = [1] := by decide
  rw [histogram, merge_contents, List.flatMap_cons, List.flatMap_cons, first, second]
  cbv

structure Balked (host : Host) (project : Path) : Prop where
  contents : ∃ contents, host.tree.Contents [] project contents
  failed : ∃ fault, ((survey project).run.run host).1 = .error fault

theorem balked_closed {machine : Machine} {project : Path}
    (closes : FileTree.Closes machine project) :
    Balked { tree := FileTree.nestedTree machine [] } project where
  contents := by
    refine ⟨[], ["d"], FileTree.nestedEntries [], [], closes.found [], .nil, fun source => ?_, .nil⟩
    refine iff_of_false List.not_mem_nil ?_
    rintro ⟨above, name, leaf, rfl, found, solid, _⟩
    cases above with
    | nil =>
      obtain ⟨child, looked, same⟩ := Option.bind_eq_some_iff.mp found
      obtain ⟨_, rfl⟩ := Prod.mk.inj (List.mem_singleton.mp (Node.mem_of_lookup looked))
      cases same
      cases solid
    | cons directory above =>
      obtain ⟨child, looked, below⟩ := Option.bind_eq_some_iff.mp found
      obtain ⟨_, rfl⟩ := Prod.mk.inj (List.mem_singleton.mp (Node.mem_of_lookup looked))
      cases above <;> cases below
  failed := by
    let host : Host := { tree := FileTree.nestedTree machine [] }
    have idle : host.tracer? = none := rfl
    have ends := Host.Ends.survey_untraced idle project {}
    have empty : (Node.directory []).Distinct := Node.distinct_directory.mpr ⟨.nil, by simp⟩
    rw [ends.result]
    cases found : host.tree.finding [] project with
    | error fault => exact ⟨fault, rfl⟩
    | ok finding => exact absurd (FileTree.finding_ok found).2.1 (closes.unlisted empty _)

def tracedHost (machine : Machine) (trace : String) : Host where
  tree := { root := .directory [("pÿ", .directory [])], machine }
  tracers := [{ serial := 0, runId := "r", path := ⟨.relative, [trace]⟩ }]

theorem balked_traced {machine : Machine} {trace : String}
    (found : (tracedHost machine trace).tree.find ⟨.relative, ["pÿ"]⟩ = .ok (["pÿ"], .directory []))
    (failed : ∃ fault, ((survey ⟨.relative, ["pÿ"]⟩).run.run (tracedHost machine trace)).1 =
      .error fault) : Balked (tracedHost machine trace) ⟨.relative, ["pÿ"]⟩ where
  contents := ⟨[], ["pÿ"], [], [], found, .nil, (FileTree.sources_leaf fun _ => rfl).complete, .nil⟩
  failed

/-- A survey fails where the search for sources does, and where its record is not written: the
    trace's path is a directory, its disk is full, or the name of the project is no text. -/
theorem survey_balked :
    Balked { tree := FileTree.nestedTree { nesting := 1 } [] } FileTree.nearPath ∧
    Balked { tree := FileTree.nestedTree {} [] } FileTree.farPath ∧
    Balked { tree := FileTree.nestedTree FileTree.barringMachine [] } FileTree.nearPath ∧
    Balked (tracedHost {} "pÿ") ⟨.relative, ["pÿ"]⟩ ∧
    Balked (tracedHost { stops := fun _ _ _ => some (.full, 0) } "t") ⟨.relative, ["pÿ"]⟩ ∧
    Balked (tracedHost { byte? := fun c => if c = 'ÿ' then some 0xff else none } "t")
      ⟨.relative, ["pÿ"]⟩ := by
  refine ⟨balked_closed FileTree.closes_deep, balked_closed FileTree.closes_far,
    balked_closed FileTree.closes_barring, balked_traced (by cbv) ?_, balked_traced (by cbv) ?_,
    balked_traced (by cbv) ?_⟩
  · exact ⟨.refused .isDirectory ⟨.relative, ["pÿ"]⟩, by cbv⟩
  · exact ⟨.unwritten .full, by cbv⟩
  · exact ⟨.unencodable 0xff 49 49, by cbv⟩

end Project

end FluentCensus
