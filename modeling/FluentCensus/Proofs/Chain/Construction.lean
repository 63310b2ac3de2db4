import FluentCensus.Proofs.Chain.CallSite

namespace FluentCensus

theorem callPosition_second (before : List Token) :
    callPosition (.name :: .name :: before) = (callPosition before || afterApplied before) := by
  rw [callPosition_names]
  by_cases name : before.head? = some .name
  · obtain ⟨earlier, rfl⟩ := List.head?_eq_some_iff.mp name
    have ungrouped : afterApplied (.name :: earlier) = false := rfl
    rw [callPosition_names, Bool.not_not, ungrouped, Bool.or_false]
  · rw [callPosition_name name, callPosition_other name, Bool.not_not, Bool.false_or]

theorem callSites_name (tokens : List Token) :
    (callSites (tokens ++ [.name])).length = (callSites tokens).length := by
  have uncalled : ¬ IsCallSite (tokens ++ [.name]) tokens.length := by
    rw [isCallSite_last]
    exact fun site => absurd site.1 (by decide)
  rw [callSites_snoc, if_neg uncalled, Nat.add_zero]

theorem nesting?_name (tokens : List Token) :
    nesting? 0 (tokens ++ [.name]) = nesting? 0 tokens := by
  rw [nesting?_snoc]
  cases nesting? 0 tokens <;> rfl

/-- The second of two names is called after a name that could have been called itself and after a
    group that was applied, and nowhere else. -/
theorem chainLengths_construction (before : List Token) :
    (chainLengths (before ++ [.name, .name, .openParen])).sum = (chainLengths before).sum +
      if nesting? 0 before ≠ none ∧ (callPosition before.reverse ∨ afterApplied before.reverse)
      then 1 else 0 := by
  have counted (tokens : List Token) : (chainLengths tokens).sum = (callSites tokens).length := by
    rw [chainLengths, Scan.finish_sum, Scan.run_calls]
  let named := before ++ [.name] ++ [.name]
  have whole : before ++ [.name, .name, .openParen] = named ++ [.openParen] := by simp [named]
  have site : IsCallSite (named ++ [.openParen]) named.length ↔
      nesting? 0 before ≠ none ∧ (callPosition before.reverse ∨ afterApplied before.reverse) := by
    rw [isCallSite_last, nesting?_name, nesting?_name]
    simp [named, callPosition_second]
  have names : (callSites named).length = (callSites before).length := by
    rw [callSites_name, callSites_name]
  rw [counted, counted, whole, callSites_snoc, names]
  simp only [site]

/-- As in `return new Foo(`. -/
theorem returned_construction_called :
    (chainLengths ([.name] ++ [.name, .name, .openParen])).sum = 1 ∧
    (chainLengths [.name]).sum = 0 := by
  decide

end FluentCensus
