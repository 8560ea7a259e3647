/-!
# The ledger

What the desk has done so far is counted: offers by how they fared, searches
by how they ended, the orders that wait for a driver, and the sweeps. The
counts are published as lines of text, in families sorted by name and within
a family by label. A label that has not come up has no line, and a family
without a line is left out.
-/

namespace Hailing

/-- How a search ended. -/
inductive SearchEnd where
  | abandoned
  | exhausted
  | offered
  deriving DecidableEq, Repr

structure Ledger where
  requested : Nat := 0
  accepted : Nat := 0
  rejected : Nat := 0
  timeouts : Nat := 0
  abandoned : Nat := 0
  exhausted : Nat := 0
  offered : Nat := 0
  /-- Orders that wait for a driver. Orders that were put on record in
  another way than by a request are not counted in, but counted out. -/
  pending : Int := 0
  sweeps : Nat := 0
  deriving DecidableEq, Repr, Inhabited

namespace Ledger

def countSearch (e : SearchEnd) (l : Ledger) : Ledger :=
  match e with
  | .abandoned => { l with abandoned := l.abandoned + 1 }
  | .exhausted => { l with exhausted := l.exhausted + 1 }
  | .offered => { l with offered := l.offered + 1 }

/-! ## Lines -/

/-- A family of counts: its name, what it is about, what kind of count it is,
and its samples. -/
structure Family where
  name : String
  help : String
  type : String
  samples : List String

/-- A sample for each label with a count. -/
def labelled (name : String) (counts : List (String × Nat)) : List String :=
  (counts.filter (·.2 ≠ 0)).map fun (label, n) =>
    name ++ "\x7boutcome=\"" ++ label ++ "\"\x7d " ++ toString n

def searchCounts (l : Ledger) : List (String × Nat) :=
  [("abandoned", l.abandoned), ("exhausted", l.exhausted), ("offered", l.offered)]

def offerCounts (l : Ledger) : List (String × Nat) :=
  [ ("accepted", l.accepted), ("rejected", l.rejected),
    ("requested", l.requested), ("timeout", l.timeouts) ]

def families (l : Ledger) : List Family :=
  [ ⟨"dispatch_search_latency_seconds",
      "Wall time from search start to its outcome, including radius waits", "histogram",
      labelled "dispatch_search_latency_seconds_count" l.searchCounts⟩,
    ⟨"dispatch_searches_total", "Completed candidate searches by outcome", "counter",
      labelled "dispatch_searches_total" l.searchCounts⟩,
    ⟨"offers_total", "Offers by lifecycle outcome", "counter",
      labelled "offers_total" l.offerCounts⟩,
    ⟨"orders_pending", "Orders waiting for a driver", "gauge",
      ["orders_pending " ++ toString l.pending]⟩,
    ⟨"sweep_runs_total", "Timeout sweeps executed", "counter",
      ["sweep_runs_total " ++ toString l.sweeps]⟩ ]

def Family.lines (f : Family) : List String :=
  if f.samples.isEmpty then []
  else ("# HELP " ++ f.name ++ " " ++ f.help) :: ("# TYPE " ++ f.name ++ " " ++ f.type) ::
    f.samples

/-- The lines with those that explain a family. -/
def lines (l : Ledger) : List String := l.families.flatMap Family.lines

def samples (l : Ledger) : List String := l.families.flatMap Family.samples

end Ledger

end Hailing
