import FluentCensus.Host.Basic

namespace FluentCensus.Host

theorem lookup_variable (name other value : String) (environment : List (String × String)) :
    ((name, value) :: environment).lookup other =
      if other = name then some value else environment.lookup other := by
  rw [List.lookup_cons]
  by_cases same : other = name
  · simp [same]
  · rw [beq_false_of_ne same, if_neg same]

theorem lookup_putVariable (name other value : String) (environment : List (String × String)) :
    (putVariable name value environment).lookup other =
      if other = name then some value else environment.lookup other := by
  induction environment with
  | nil => exact lookup_variable name other value []
  | cons entry environment ih =>
    obtain ⟨first, old⟩ := entry
    by_cases found : first = name
    · subst found
      by_cases same : other = first <;> simp [putVariable, lookup_variable, same]
    · by_cases here : other = first
      · subst here
        simp [putVariable, found]
      · simp [putVariable, lookup_variable, found, here, ih]

theorem putVariable_same {name value : String} {environment : List (String × String)}
    (there : environment.lookup name = some value) :
    putVariable name value environment = environment := by
  induction environment with
  | nil => cases there
  | cons entry environment ih =>
    obtain ⟨first, old⟩ := entry
    rw [lookup_variable] at there
    by_cases found : first = name
    · obtain rfl : old = value := by simpa [found] using there
      simp [putVariable, found]
    · rw [if_neg (Ne.symm found)] at there
      simp [putVariable, found, ih there]

theorem putVariable_putVariable (name value old : String) (environment : List (String × String)) :
    putVariable name value (putVariable name old environment) =
      putVariable name value environment := by
  induction environment with
  | nil => simp [putVariable]
  | cons entry environment ih =>
    by_cases found : entry.1 = name <;> simp [putVariable, found, ih]

-- Variables that are both new would stand in the order in which they were put.
theorem putVariable_comm {name other : String} (apart : other ≠ name) (value new : String)
    {environment : List (String × String)} (present : environment.lookup name ≠ none) :
    putVariable name value (putVariable other new environment) =
      putVariable other new (putVariable name value environment) := by
  induction environment with
  | nil => exact absurd rfl present
  | cons entry environment ih =>
    obtain ⟨first, old⟩ := entry
    by_cases here : first = name
    · subst here
      simp [putVariable, apart.symm]
    · have later : environment.lookup name ≠ none := by
        rw [lookup_variable, if_neg (Ne.symm here)] at present
        exact present
      by_cases there : first = other
      · subst there
        simp [putVariable, here]
      · simp [putVariable, here, there, ih later]

end FluentCensus.Host
