import Saturation.ClauseSet

/-!
# Covered clauses

A clause is covered by a set that holds one of its parts: the part implies it, so it says nothing
new.  `covers` asks this of one clause; `minimal` drops the clauses of a set that another member
covers.  Both use that a part is smaller, so it comes first in the order.
-/

namespace Saturation.ClauseSet

/-- Whether one of the entries is a part of the clause.  They must ascend: a part is no larger, so
the search stops at the first larger entry. -/
def coversAmong (c : Clause) : List Entry → Bool
  | [] => false
  | e :: rest => e.clause.size ≤ c.size && (e.clause ⊆ c || coversAmong c rest)

/-- Whether the clause is a member or has a part among the members. -/
def covers (K : ClauseSet) (c : Clause) : Bool := coversAmong c K.entries

def strike (c : Clause) (es : List Entry) : List Entry := es.filter fun e => !(c ⊂ e.clause : Bool)

theorem strike_sublist (c : Clause) (es : List Entry) : (strike c es).Sublist es :=
  List.filter_sublist

/-- Keeps the first entry, strikes those after it of which it is a proper part, and goes on with
the rest. -/
def sieve : List Entry → List Entry
  | [] => []
  | e :: rest => e :: sieve (strike e.clause rest)
termination_by es => es.length
decreasing_by exact Nat.lt_succ_of_le (strike_sublist e.clause rest).length_le

theorem sieve_sublist (es : List Entry) : (sieve es).Sublist es := by
  fun_induction sieve es with
  | case1 => exact .slnil
  | case2 e rest ih => exact (ih.trans (strike_sublist e.clause rest)).cons_cons e

/-- The clauses of which no other member is a part. -/
def minimal (K : ClauseSet) : ClauseSet :=
  ⟨sieve K.entries, K.ascending.sublist _ (sieve_sublist K.entries)⟩

end Saturation.ClauseSet
