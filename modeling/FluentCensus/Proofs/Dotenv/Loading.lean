import FluentCensus.Dotenv
import FluentCensus.Proofs.Host.Ends
import FluentCensus.Proofs.Host.Variables
import Mathlib

namespace FluentCensus

namespace Assignment

def key (a : Assignment) : String := String.ofList a.name

def text (a : Assignment) : String := String.ofList a.value

def HasNul (a : Assignment) : Prop := '\x00' ∈ a.name ∨ '\x00' ∈ a.value

instance (a : Assignment) : Decidable a.HasNul := inferInstanceAs (Decidable (_ ∨ _))

theorem hasNul_iff (a : Assignment) :
    ('\x00' ∈ a.key.toList ∨ '\x00' ∈ a.text.toList) ↔ a.HasNul := by
  rw [key, text, String.toList_ofList, String.toList_ofList]
  rfl

end Assignment

namespace Dotenv

/-- A variable that is there but empty counts as not set. -/
def isSet (value : Option String) : Bool := value.any (!·.isEmpty)

theorem isSet_some (value : String) : isSet (some value) = !value.isEmpty := rfl

def given (name : String) (assignments : List Assignment) : List String :=
  (assignments.filter (·.key = name)).map Assignment.text

/-- What assignments make of a variable: the last value that they give it if they override, and
    else the first one that is not empty, unless it is set already. -/
def settled (override : Bool) (assignments : List Assignment) (name : String)
    (old : Option String) : Option String :=
  match given name assignments with
  | [] => old
  | values =>
    if override then values.getLast?
    else if isSet old then old
    else some ((values.find? (!·.isEmpty)).getD "")

def Fails (override : Bool) (environment : List (String × String)) (earlier : List Assignment)
    (a : Assignment) : Prop :=
  a.HasNul ∧
    (isSet (settled override earlier a.key (environment.lookup a.key)) && !override) = false

/-- How the assignments of a file end, and in which environment: all of them have been carried out
    or passed over, or those before the first one that the system cannot take. -/
inductive Loaded (override : Bool) (environment : List (String × String))
    (assignments : List Assignment) : Except Fault Bool → List (String × String) → Prop where
  | all {after : List (String × String)}
      (sound : ∀ earlier a later, assignments = earlier ++ a :: later →
        ¬ Fails override environment earlier a)
      (values : ∀ name, after.lookup name =
        settled override assignments name (environment.lookup name)) :
      Loaded override environment assignments (.ok true) after
  | broken {after : List (String × String)} (before : List Assignment) (bad : Assignment)
      (rest : List Assignment) (split : assignments = before ++ bad :: rest)
      (fails : Fails override environment before bad)
      (sound : ∀ earlier a later, before = earlier ++ a :: later →
        ¬ Fails override environment earlier a)
      (values : ∀ name, after.lookup name =
        settled override before name (environment.lookup name)) :
      Loaded override environment assignments (.error .nulCharacter) after

def perform (override : Bool) (environment : List (String × String)) :
    List Assignment → Except Fault Unit × List (String × String)
  | [] => (.ok (), environment)
  | a :: rest =>
    if isSet (environment.lookup a.key) && !override then perform override environment rest
    else if a.HasNul then (.error .nulCharacter, environment)
    else perform override (Host.putVariable a.key a.text environment) rest

variable {override : Bool} {environment after : List (String × String)}

theorem run_assign (override : Bool) (a : Assignment) (host : Host) :
    (assign override a).run.run host =
      if isSet (host.environment.lookup a.key) && !override then (.ok (), host)
      else if a.HasNul then (.error .nulCharacter, host)
      else (.ok (), { host with
        environment := Host.putVariable a.key a.text host.environment }) := by
  have read : (assign override a).run.run host =
      (unless isSet (host.environment.lookup a.key) && !override do
        Host.setVariable a.key a.text : HostM Unit).run.run host := rfl
  rw [read]
  by_cases kept : (isSet (host.environment.lookup a.key) && !override) = true
  · rw [if_pos kept, if_pos kept]
    rfl
  · rw [if_neg kept, if_neg kept, Host.setVariable]
    simp only [a.hasNul_iff]
    split <;> rfl

theorem run_assignments (override : Bool) (assignments : List Assignment) (host : Host) :
    (assignments.forM (assign override)).run.run host =
      ((perform override host.environment assignments).1,
        { host with environment := (perform override host.environment assignments).2 }) := by
  induction assignments generalizing host with
  | nil => rfl
  | cons a rest ih =>
    change (assign override a >>= fun _ => rest.forM (assign override)).run.run host = _
    rw [Host.Ends.run_bind, run_assign, perform]
    by_cases kept : (isSet (host.environment.lookup a.key) && !override) = true
    · rw [if_pos kept, if_pos kept]
      exact ih host
    · rw [if_neg kept, if_neg kept]
      by_cases nul : a.HasNul
      · rw [if_pos nul, if_pos nul]
      · rw [if_neg nul, if_neg nul]
        exact ih _

theorem given_cons (name : String) (a : Assignment) (rest : List Assignment) :
    given name (a :: rest) =
      if a.key = name then a.text :: given name rest else given name rest := by
  by_cases same : a.key = name <;> simp [given, same]

theorem settled_kept {assignments : List Assignment} {name : String} {old : Option String}
    (set : isSet old = true) : settled false assignments name old = old := by
  unfold settled
  split <;> simp [set]

theorem settled_passed {a : Assignment} {rest : List Assignment} {name : String}
    {old : Option String} (kept : a.key = name → (isSet old && !override) = true) :
    settled override (a :: rest) name old = settled override rest name old := by
  by_cases same : a.key = name
  · have kept := kept same
    obtain ⟨set, rfl⟩ : isSet old = true ∧ override = false := by simpa using kept
    rw [settled_kept set, settled_kept set]
  · rw [settled, given_cons, if_neg same, settled]

theorem settled_written {a : Assignment} {rest : List Assignment} {old : Option String}
    (free : (isSet old && !override) = false) :
    settled override (a :: rest) a.key old = settled override rest a.key (some a.text) := by
  rw [settled, given_cons, if_pos rfl, settled]
  cases override with
  | true => cases given a.key rest <;> simp [List.getLast?_cons]
  | false =>
    have unset : isSet old = false := by simpa using free
    by_cases empty : a.text = ""
    · cases given a.key rest <;> simp [unset, isSet_some, empty]
    · cases given a.key rest <;> simp [unset, isSet_some, empty]

theorem settled_text (text name : String) (assignments : List Assignment) :
    isSet (settled false assignments name (some text)) = true ∨
      settled false assignments name (some text) = some text := by
  by_cases set : isSet (some text) = true
  · exact .inr (settled_kept set)
  · have empty : text = "" := by simpa [isSet_some] using set
    unfold settled
    cases given name assignments with
    | nil => exact .inr rfl
    | cons value values =>
      simp only [Bool.false_eq_true, set, if_false]
      cases found : (value :: values).find? (!·.isEmpty) with
      | none => exact .inr (congrArg some empty.symm)
      | some filled =>
        have full := List.find?_some found
        exact .inl full

theorem perform_cons_ok {a : Assignment} {rest : List Assignment}
    (done : perform override environment (a :: rest) = (.ok (), after)) :
    (isSet (environment.lookup a.key) && !override) = true ∧
        perform override environment rest = (.ok (), after) ∨
      (isSet (environment.lookup a.key) && !override) = false ∧ ¬ a.HasNul ∧
        perform override (Host.putVariable a.key a.text environment) rest = (.ok (), after) := by
  rw [perform] at done
  by_cases kept : (isSet (environment.lookup a.key) && !override) = true
  · rw [if_pos kept] at done
    exact .inl ⟨kept, done⟩
  · rw [if_neg kept] at done
    by_cases nul : a.HasNul
    · rw [if_pos nul] at done
      cases done
    · rw [if_neg nul] at done
      exact .inr ⟨eq_false_of_ne_true kept, nul, done⟩

theorem perform_values {assignments : List Assignment}
    (done : perform override environment assignments = (.ok (), after)) (name : String) :
    after.lookup name = settled override assignments name (environment.lookup name) := by
  induction assignments generalizing environment with
  | nil =>
    cases done
    rfl
  | cons a rest ih =>
    rcases perform_cons_ok done with ⟨kept, done⟩ | ⟨free, _, done⟩
    · rw [ih done, settled_passed]
      rintro rfl
      exact kept
    · rw [ih done, Host.lookup_putVariable]
      by_cases same : name = a.key
      · subst same
        rw [if_pos rfl, settled_written free]
      · rw [if_neg same, settled_passed]
        rintro rfl
        exact absurd rfl same

theorem perform_append (override : Bool) (environment : List (String × String))
    (first second : List Assignment) :
    perform override environment (first ++ second) =
      match perform override environment first with
      | (.ok (), middle) => perform override middle second
      | (.error fault, middle) => (.error fault, middle) := by
  induction first generalizing environment with
  | nil => rfl
  | cons a rest ih =>
    rw [List.cons_append, perform, perform]
    by_cases kept : (isSet (environment.lookup a.key) && !override) = true
    · rw [if_pos kept, if_pos kept, ih]
    · rw [if_neg kept, if_neg kept]
      by_cases nul : a.HasNul
      · rw [if_pos nul, if_pos nul]
      · rw [if_neg nul, if_neg nul, ih]

theorem perform_fails {a : Assignment} (rest : List Assignment)
    (fails : Fails override environment [] a) :
    perform override environment (a :: rest) = (.error .nulCharacter, environment) := by
  obtain ⟨nul, free⟩ := fails
  have written : ¬ (isSet (environment.lookup a.key) && !override) = true := by
    rw [Bool.not_eq_true]
    exact free
  rw [perform, if_neg written, if_pos nul]

theorem perform_cases (override : Bool) (environment : List (String × String))
    (assignments : List Assignment) :
    (∃ after, perform override environment assignments = (.ok (), after)) ∨
    ∃ before bad rest after, assignments = before ++ bad :: rest ∧
      perform override environment before = (.ok (), after) ∧
      Fails override after [] bad := by
  induction assignments generalizing environment with
  | nil => exact .inl ⟨environment, rfl⟩
  | cons a rest ih =>
    have onward {next : List (String × String)}
        (step : ∀ more, perform override environment (a :: more) = perform override next more) :
        (∃ after, perform override environment (a :: rest) = (.ok (), after)) ∨
        ∃ before bad later after, a :: rest = before ++ bad :: later ∧
          perform override environment before = (.ok (), after) ∧
          Fails override after [] bad := by
      rcases ih next with ⟨after, done⟩ | ⟨before, bad, later, after, rfl, done, fails⟩
      · exact .inl ⟨after, (step rest).trans done⟩
      · exact .inr ⟨a :: before, bad, later, after, rfl, (step before).trans done, fails⟩
    by_cases kept : (isSet (environment.lookup a.key) && !override) = true
    · exact onward fun more => by rw [perform, if_pos kept]
    · by_cases nul : a.HasNul
      · exact .inr ⟨[], a, rest, environment, rfl, rfl, nul, eq_false_of_ne_true kept⟩
      · exact onward fun more => by rw [perform, if_neg kept, if_neg nul]

theorem fails_after {assignments : List Assignment} {a : Assignment}
    (done : perform override environment assignments = (.ok (), after)) :
    Fails override environment assignments a ↔ Fails override after [] a := by
  rw [Fails, ← perform_values done]
  rfl

theorem perform_sound {assignments : List Assignment}
    (done : perform override environment assignments = (.ok (), after)) (earlier : List Assignment)
    (a : Assignment) (later : List Assignment) (split : assignments = earlier ++ a :: later) :
    ¬ Fails override environment earlier a := by
  intro fails
  subst split
  rw [perform_append] at done
  cases first : perform override environment earlier with
  | mk result middle =>
    rw [first] at done
    cases result with
    | error fault => cases done
    | ok value =>
      dsimp only at done
      rw [perform_fails later ((fails_after first).mp fails)] at done
      cases done

section Again

def overwrite (environment : List (String × String)) (assignments : List Assignment) :
    List (String × String) :=
  assignments.foldl (fun environment a => Host.putVariable a.key a.text environment) environment

theorem perform_overriding {assignments : List Assignment}
    (done : perform true environment assignments = (.ok (), after))
    (other : List (String × String)) :
    perform true other assignments = (.ok (), overwrite other assignments) := by
  induction assignments generalizing environment other with
  | nil => rfl
  | cons a rest ih =>
    rcases perform_cons_ok done with ⟨kept, _⟩ | ⟨_, nul, done⟩
    · simp at kept
    · rw [perform, if_neg (by simp), if_neg nul]
      exact ih done _

theorem overwrite_present {assignments : List Assignment} {name : String}
    (known : environment.lookup name ≠ none ∨ ∃ a ∈ assignments, a.key = name) :
    (overwrite environment assignments).lookup name ≠ none := by
  induction assignments generalizing environment with
  | nil =>
    rcases known with known | ⟨a, member, _⟩
    · exact known
    · cases member
  | cons a rest ih =>
    refine ih ?_
    rw [Host.lookup_putVariable]
    by_cases same : name = a.key
    · left
      rw [if_pos same]
      exact nofun
    · rw [if_neg same]
      refine known.imp_right ?_
      rintro ⟨b, member, rfl⟩
      rcases List.mem_cons.mp member with rfl | member
      · exact absurd rfl same
      · exact ⟨b, member, rfl⟩

-- A value that is overwritten in the end may as well never have been there.
theorem put_overwrite (a : Assignment) (assignments : List Assignment) (old : String)
    (known : ∀ b ∈ assignments, environment.lookup b.key ≠ none) :
    Host.putVariable a.key a.text
        (overwrite (Host.putVariable a.key old environment) assignments) =
      Host.putVariable a.key a.text (overwrite environment assignments) := by
  induction assignments generalizing environment with
  | nil => exact Host.putVariable_putVariable _ _ _ _
  | cons b rest ih =>
    obtain ⟨first, others⟩ := List.forall_mem_cons.mp known
    rw [overwrite, List.foldl_cons, overwrite, List.foldl_cons]
    by_cases same : a.key = b.key
    · rw [same, Host.putVariable_putVariable]
    · rw [Host.putVariable_comm same _ _ first]
      refine ih fun c member => ?_
      rw [Host.lookup_putVariable]
      split
      · exact nofun
      · exact others c member

theorem overwrite_again (environment : List (String × String)) (assignments : List Assignment) :
    overwrite (overwrite environment assignments) assignments =
      overwrite environment assignments := by
  induction assignments using List.reverseRecOn with
  | nil => rfl
  | append_singleton rest a ih =>
    have last (environment : List (String × String)) : overwrite environment (rest ++ [a]) =
        Host.putVariable a.key a.text (overwrite environment rest) := List.foldl_append
    have known : ∀ b ∈ rest, (overwrite environment rest).lookup b.key ≠ none :=
      fun b member => overwrite_present (.inr ⟨b, member, rfl⟩)
    rw [last, last, put_overwrite _ _ _ known, ih]

theorem perform_done {assignments : List Assignment}
    (done : perform false environment assignments = (.ok (), after)) :
    ∀ a ∈ assignments, isSet (after.lookup a.key) = true ∨
      after.lookup a.key = some a.text ∧ ¬ a.HasNul := by
  induction assignments generalizing environment with
  | nil => exact fun _ => nofun
  | cons a rest ih =>
    rcases perform_cons_ok done with ⟨kept, done⟩ | ⟨_, nul, done⟩
    · have set : isSet (environment.lookup a.key) = true := by simpa using kept
      refine List.forall_mem_cons.mpr ⟨.inl ?_, ih done⟩
      rw [perform_values done, settled_kept set, set]
    · refine List.forall_mem_cons.mpr ⟨?_, ih done⟩
      rw [perform_values done, Host.lookup_putVariable, if_pos rfl]
      exact (settled_text a.text a.key rest).imp_right fun same => ⟨same, nul⟩

theorem perform_idle {assignments : List Assignment}
    (idle : ∀ a ∈ assignments, isSet (environment.lookup a.key) = true ∨
      environment.lookup a.key = some a.text ∧ ¬ a.HasNul) :
    perform false environment assignments = (.ok (), environment) := by
  induction assignments with
  | nil => rfl
  | cons a rest ih =>
    obtain ⟨first, others⟩ := List.forall_mem_cons.mp idle
    rw [perform]
    by_cases kept : (isSet (environment.lookup a.key) && !false) = true
    · rw [if_pos kept, ih others]
    · rcases first with set | ⟨there, plain⟩
      · exact absurd (by simp [set]) kept
      · rw [if_neg kept, if_neg plain, Host.putVariable_same there, ih others]

theorem perform_again {assignments : List Assignment}
    (done : perform override environment assignments = (.ok (), after)) :
    perform override after assignments = (.ok (), after) := by
  cases override with
  | false => exact perform_idle (perform_done done)
  | true =>
    have same := (perform_overriding done environment).symm.trans done
    have written : overwrite environment assignments = after := congrArg Prod.snd same
    rw [perform_overriding done, ← written, overwrite_again]

end Again

/-- The path leads to a file of these bytes, once a tilde is replaced. -/
def Provides (host : Host) (path : Path) (bytes : List UInt8) : Prop :=
  ∃ expanded, host.expandHome path = .ok expanded ∧ host.tree.read expanded = .ok bytes

theorem run_load_home {host : Host} {path expanded : Path}
    (home : host.expandHome path = .ok expanded) (override : Bool) :
    (load path override).run.run host = (do
      if ← Host.ask (·.isFile expanded) then
        let bytes ← Host.ask (·.read expanded)
        (assignments (Utf8.decode bytes)).forM (assign override)
        return true
      else return false : HostM Bool).run.run host := by
  have expand :
      (liftM (host.expandHome path) : HostM Path).run.run host = (.ok expanded, host) := by
    rw [home]
    rfl
  rw [load, Host.Ends.run_bind]
  change (liftM (host.expandHome path) >>= fun _ => _ : HostM Bool).run.run host = _
  rw [Host.Ends.run_bind, expand]

theorem run_load {host : Host} {path : Path} {bytes : List UInt8}
    (provides : Provides host path bytes) (override : Bool) :
    (load path override).run.run host =
      let outcome := perform override host.environment (assignments (Utf8.decode bytes))
      (outcome.1.map fun _ => true, { host with environment := outcome.2 }) := by
  obtain ⟨expanded, home, read⟩ := provides
  rw [run_load_home home, Host.Ends.run_bind, Host.Ends.run_ask, FileTree.isFile_read read]
  dsimp only
  rw [if_pos rfl, Host.Ends.run_bind, Host.Ends.run_ask, read]
  dsimp only
  rw [Host.Ends.run_bind, run_assignments]
  cases (perform override host.environment (assignments (Utf8.decode bytes))).1 <;> rfl

theorem perform_twice (override : Bool) (environment : List (String × String))
    (assignments : List Assignment) :
    perform override (perform override environment assignments).2 assignments =
      perform override environment assignments := by
  rcases perform_cases override environment assignments with
    ⟨after, done⟩ | ⟨before, bad, rest, after, rfl, done, fails⟩
  · rw [done]
    exact perform_again done
  · have stopped : perform override environment (before ++ bad :: rest) =
        (.error .nulCharacter, after) := by
      rw [perform_append, done]
      exact perform_fails rest fails
    rw [stopped]
    dsimp only
    rw [perform_append, perform_again done]
    exact perform_fails rest fails

/-- Loading a file carries out its assignments, up to one that the system cannot take, and loading
    it again, by whatever path, changes nothing more. -/
theorem load_settles {host : Host} {path : Path} {bytes : List UInt8}
    (provides : Provides host path bytes) (override : Bool) :
    ∃ result environment,
      (load path override).run.run host = (result, { host with environment }) ∧
      Loaded override host.environment (assignments (Utf8.decode bytes)) result environment ∧
      ∀ again, Provides { host with environment } again bytes →
        (load again override).run.run { host with environment } =
          (result, { host with environment }) := by
  refine ⟨_, _, run_load provides override, ?_, ?_⟩
  · rcases perform_cases override host.environment (assignments (Utf8.decode bytes)) with
      ⟨after, done⟩ | ⟨before, bad, rest, after, split, done, fails⟩
    · rw [done]
      exact .all (perform_sound done) (perform_values done)
    · rw [split, perform_append, done]
      dsimp only
      rw [perform_fails rest fails]
      exact .broken before bad rest rfl ((fails_after done).mpr fails) (perform_sound done)
        (perform_values done)
  · intro again provided
    rw [run_load provided]
    dsimp only
    rw [perform_twice]

def repeatedText : List UInt8 :=
  Utf8.encode "A=\nA=one # first\nexport A=two\nB='b'\nC=c\n\nB=\n".toList

def repeatedAssignments : List Assignment :=
  [⟨['A'], []⟩, ⟨['A'], "one".toList⟩, ⟨['A'], "two".toList⟩, ⟨['B'], ['b']⟩, ⟨['C'], ['c']⟩,
    ⟨['B'], []⟩]

def repeatedHost : Host where
  tree := { root := .directory [(".env", .file repeatedText)] }
  environment := [("B", ""), ("C", "mine")]

theorem load_settles_repeated :
    Provides repeatedHost ⟨.relative, [".env"]⟩ repeatedText ∧
    ∃ environment, (load ⟨.relative, [".env"]⟩).run.run repeatedHost =
        (.ok true, { repeatedHost with environment }) ∧
      environment.lookup "A" = some "one" ∧ environment.lookup "B" = some "b" ∧
      environment.lookup "C" = some "mine" := by
  have provides : Provides repeatedHost ⟨.relative, [".env"]⟩ repeatedText :=
    ⟨⟨.relative, [".env"]⟩, by cbv, by cbv⟩
  have parsed : assignments (Utf8.decode repeatedText) = repeatedAssignments := by cbv
  refine ⟨provides, ?_⟩
  obtain ⟨result, environment, ran, loaded, _⟩ := load_settles provides false
  rw [parsed] at loaded
  cases loaded with
  | all _ values =>
    exact ⟨environment, ran, (values "A").trans (by decide), (values "B").trans (by decide),
      (values "C").trans (by decide)⟩
  | broken before bad rest split fails =>
    have plain : ∀ a ∈ repeatedAssignments, ¬ a.HasNul := by decide
    rw [split] at plain
    exact absurd fails.1 (plain bad (List.mem_append_right before List.mem_cons_self))

end Dotenv

end FluentCensus
