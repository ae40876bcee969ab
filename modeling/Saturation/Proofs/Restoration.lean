import Saturation.Checkpoint
import Saturation.Proofs.Readings

/-!
# Taking up what was put down

Reading the document of a search gives the search back, whatever it is (`reload_eq`): its clauses
in their order with their provenance, and every value of its journal.  Sets are read back piece by
piece, literals, entries and sets of entries, and each time the order is the point.  A list that
ascends already is not changed by being sorted in (`ofList_of_sorted`).
-/

namespace Saturation

/-! ## Lists -/

namespace Ascending

variable {α κ : Type} [Ord κ] {key : α → κ}

/-- An element that comes after all others is put at the end. -/
lemma insert_of_forall_lt [Std.OrientedOrd κ] {a : α} {l : List α}
    (h : ∀ b ∈ l, compare (key b) (key a) = .lt) : insert key a l = l ++ [a] := by
  induction l with
  | nil => rfl
  | cons b l ih =>
      have hb : compare (key a) (key b) = .gt :=
        Std.OrientedCmp.gt_of_lt (h b List.mem_cons_self)
      rw [insert, hb, List.cons_append]
      dsimp only
      rw [ih fun c hc => h c (List.mem_cons_of_mem b hc)]

lemma foldl_insert_of_sorted [Std.OrientedOrd κ] (l sorted : List α)
    (h : Sorted key (sorted ++ l)) :
    l.foldl (fun sorted a => insert key a sorted) sorted = sorted ++ l := by
  induction l generalizing sorted with
  | nil => rw [List.foldl_nil, List.append_nil]
  | cons a l ih =>
      have hlt : ∀ b ∈ sorted, compare (key b) (key a) = .lt :=
        fun b hb => (List.pairwise_append.1 h).2.2 b hb a List.mem_cons_self
      have happend : sorted ++ [a] ++ l = sorted ++ a :: l := List.append_cons sorted a l ▸ rfl
      rw [List.foldl_cons, insert_of_forall_lt hlt, ih _ (happend ▸ h), happend]

/-- **An ascending list is its own sorted form.** -/
lemma ofList_of_sorted [Std.OrientedOrd κ] {l : List α} (h : Sorted key l) : ofList key l = l :=
  foldl_insert_of_sorted l [] h

end Ascending

/-! ## Pieces -/

lemma Literal.ofPair_toJson (l : Literal) : ofPair l.toJson = .ok l := by
  obtain ⟨⟨name, hname⟩, negated⟩ := l
  have hne : name ≠ [] := (isName_iff.1 hname).1
  have hread : ofJson (.string name) (.bool negated) = .ok ⟨⟨name, hname⟩, negated⟩ := by
    simp [ofJson, ofName, hne, hname]
  have hpair : ofPair (toJson ⟨⟨name, hname⟩, negated⟩) =
      (ofJson (.string name) (.bool negated)).mapError .literal := rfl
  rw [hpair, hread]
  rfl

lemma Entry.ofJson_toJson (e : Entry) : ofJson e.toJson = .ok e := by
  have hliterals : (e.clause.literals.map Literal.toJson).mapM Literal.ofPair =
      .ok e.clause.literals := mapM_map_eq_ok Literal.ofPair_toJson _
  have hclause : Clause.ofLiterals e.clause.literals = e.clause :=
    Clause.ext (Ascending.ofList_of_sorted e.clause.ascending)
  have hfield : e.toJson.field "literals" =
      .ok (.array (e.clause.literals.map Literal.toJson)) := rfl
  have hstep : e.toJson.get? "step" = some e.source.step := rfl
  have hlabel : e.toJson.get? "label" = some e.source.label := rfl
  rw [ofJson, hfield, hstep, hlabel]
  simp only [Json.each, Json.elements?, bind, Except.bind, pure, Except.pure]
  rw [hliterals]
  dsimp only [Option.getD_some]
  rw [hclause]

lemma ClauseSet.ofJson_toJson (K : ClauseSet) : ofJson K.toJson = .ok K := by
  have hentries : (K.entries.map Entry.toJson).mapM Entry.ofJson = .ok K.entries :=
    mapM_map_eq_ok Entry.ofJson_toJson _
  have hset : ofEntries K.entries = K := ClauseSet.ext (Ascending.ofList_of_sorted K.ascending)
  rw [ofJson, toJson]
  simp only [Json.each, Json.elements?, bind, Except.bind, pure, Except.pure]
  rw [hentries]
  dsimp only
  rw [hset]

namespace Search

/-- **A search that is put down is taken up as it was.** -/
theorem reload_eq (s : Search) : s.reload = .ok s := by
  have hfrontier : s.toJson.field "frontier" = .ok s.frontier.toJson := rfl
  have hseen : s.toJson.field "seen" = .ok s.seen.toJson := rfl
  have hhistory : s.toJson.field "history" = .ok s.journal.history := rfl
  have hround : s.toJson.field "round" = .ok s.journal.round := rfl
  rw [reload, ofJson, hfrontier, hseen, hhistory, hround]
  simp only [bind, Except.bind, ClauseSet.ofJson_toJson]
  rfl

/-- Whatever text reads as the document of a search is loaded as that search. -/
lemma load_eq {text : String} {s : Search}
    (h : Json.read (Text.unifyBreaks text) = .ok s.toJson) : load text = .ok s := by
  rw [load, h]
  exact reload_eq s

end Search

end Saturation
