import Mathlib.Data.List.DropRight
import RemnanodeLite.Plugin.Session

/-! # The queue of torrent reports

`AddReport` fills a ring of `maxTorrentReports` entries and then overwrites the oldest
one; `FlushReports` joins the two parts of the ring and empties it. Both hold the mutex
of the state, so the calls of a run follow one another. -/

namespace RemnanodeLite.Plugin

inductive ReportCall where
  | addReport (report : TorrentReport)
  | flushReports

/- What the flushes of a run return. -/
def Reports.answers : List ReportCall → Reports → List (List TorrentReport × ℕ)
  | [], _ => []
  | .addReport report :: calls, r => answers calls (r.addReport report)
  | .flushReports :: calls, r => r.flushReports.1 :: answers calls r.flushReports.2

/- For every flush, what was added since the one before; `added` is what was added
so far. -/
def batches : List ReportCall → List TorrentReport → List (List TorrentReport)
  | [], _ => []
  | .addReport report :: calls, added => batches calls (added ++ [report])
  | .flushReports :: calls, added => added :: batches calls []

def addedReports : List ReportCall → List TorrentReport
  | [] => []
  | .addReport report :: calls => report :: addedReports calls
  | .flushReports :: calls => addedReports calls

/-- The ring read from its head holds the newest of the added reports. -/
structure Reports.Holds (r : Reports) (added : List TorrentReport) : Prop where
  order : r.reports.drop r.reportHead ++ r.reports.take r.reportHead = added.rtake maxTorrentReports
  dropped : r.droppedReports = added.length - maxTorrentReports
  head : r.reportHead < maxTorrentReports
  unwrapped : added.length < maxTorrentReports → r.reportHead = 0

section
variable {r : Reports} {added : List TorrentReport} {report : TorrentReport}

theorem Reports.Holds.empty : Reports.Holds ⟨[], 0, 0⟩ [] :=
  ⟨rfl, rfl, by decide, fun _ => rfl⟩

theorem Reports.Holds.length (h : r.Holds added) :
    r.reports.length = min added.length maxTorrentReports := by
  have horder := congrArg List.length h.order
  simp only [List.length_append, List.length_drop, List.length_take, List.rtake] at horder
  omega

theorem Reports.Holds.overwrite (h : r.Holds added) (hfull : r.reports.length = maxTorrentReports) :
    (r.addReport report).Holds (added ++ [report]) := by
  have hlength := h.length
  have hhead : r.reportHead < r.reports.length := hfull ▸ h.head
  have hset : r.reports.set r.reportHead report =
      r.reports.take r.reportHead ++ report :: r.reports.drop (r.reportHead + 1) :=
    List.set_eq_take_append_cons_drop.trans (if_pos hhead)
  have htake : (r.reports.take r.reportHead).length = r.reportHead := List.length_take_of_le hhead.le
  have hnewest : (added ++ [report]).rtake maxTorrentReports =
      (added.rtake maxTorrentReports).tail ++ [report] := by
    have hindex : (added ++ [report]).length - maxTorrentReports =
        added.length - maxTorrentReports + 1 := by
      rw [List.length_append, List.length_singleton]
      omega
    rw [List.rtake, List.rtake, hindex, List.drop_append_of_le_length (by have := h.head; omega),
      List.tail_drop]
  have hring : r.reports.drop (r.reportHead + 1) ++ (r.reports.take r.reportHead ++ [report]) =
      (added ++ [report]).rtake maxTorrentReports := by
    rw [hnewest, ← h.order, List.drop_eq_getElem_cons hhead, ← List.append_assoc]
    rfl
  rw [Reports.addReport, if_pos hfull, hset]
  refine ⟨?_, ?_, Nat.mod_lt _ (by decide), fun hshort => ?_⟩
  · rcases Nat.lt_or_eq_of_le (Nat.succ_le_of_lt h.head) with hnext | hwrap
    · -- the head moves on inside the ring
      have hbefore : (r.reports.take r.reportHead).length ≤ r.reportHead + 1 := by omega
      rw [← hring, Nat.mod_eq_of_lt hnext]
      simp only [List.drop_append, List.take_append, htake, List.drop_eq_nil_of_le hbefore,
        List.take_of_length_le hbefore]
      simp
    · -- the head was the last entry
      have hwrapped : (r.reportHead + 1) % maxTorrentReports = 0 := by
        rw [show r.reportHead + 1 = maxTorrentReports from hwrap, Nat.mod_self]
      have hlast : r.reports.drop (r.reportHead + 1) = [] :=
        List.drop_eq_nil_of_le (hfull.trans_le hwrap.ge)
      rw [← hring, hwrapped, hlast]
      simp
  · have hdropped := h.dropped
    simp only [List.length_append, List.length_singleton]
    omega
  · rw [List.length_append] at hshort
    omega

theorem Reports.Holds.append (h : r.Holds added) (hroom : r.reports.length ≠ maxTorrentReports) :
    (r.addReport report).Holds (added ++ [report]) := by
  have hlength := h.length
  have hshort : added.length < maxTorrentReports := by omega
  have hreports : r.reports = added := by
    have horder := h.order
    rw [h.unwrapped hshort, List.rtake, Nat.sub_eq_zero_of_le hshort.le] at horder
    simpa using horder
  rw [Reports.addReport, if_neg hroom, hreports]
  refine ⟨?_, ?_, h.head, fun _ => h.unwrapped hshort⟩
  · rw [h.unwrapped hshort, List.rtake, List.length_append, List.length_singleton,
      Nat.sub_eq_zero_of_le hshort]
    simp
  · rw [h.dropped, List.length_append, List.length_singleton]
    omega

theorem Reports.Holds.add (h : r.Holds added) (report : TorrentReport) :
    (r.addReport report).Holds (added ++ [report]) := by
  by_cases hfull : r.reports.length = maxTorrentReports
  · exact h.overwrite hfull
  · exact h.append hfull

theorem Reports.Holds.flush (h : r.Holds added) : r.flushReports.1 =
    (added.rtake (min added.length maxTorrentReports), added.length - maxTorrentReports) := by
  have hjoined : (if r.reportHead ≠ 0 then r.reports.drop r.reportHead ++ r.reports.take r.reportHead
      else r.reports) = added.rtake (min added.length maxTorrentReports) := by
    have hwhole : added.rtake (min added.length maxTorrentReports) = added.rtake maxTorrentReports := by
      have hindex : added.length - min added.length maxTorrentReports =
          added.length - maxTorrentReports := by omega
      rw [List.rtake, hindex, List.rtake]
    rw [hwhole, ← h.order]
    split_ifs with hzero
    · rfl
    · rw [not_not.mp hzero, List.drop_zero, List.take_zero, List.append_nil]
  rw [Reports.flushReports, h.dropped]
  exact Prod.ext hjoined rfl

theorem answers_eq (calls : List ReportCall) (h : r.Holds added) : r.answers calls =
    (batches calls added).map fun added =>
      (added.rtake (min added.length maxTorrentReports), added.length - maxTorrentReports) := by
  induction calls generalizing r added with
  | nil => rfl
  | cons call calls ih =>
    cases call with
    | addReport report => exact ih (h.add report)
    | flushReports =>
      rw [Reports.answers, batches, List.map_cons, h.flush]
      exact congrArg _ (ih .empty)

theorem batches_sublist (calls : List ReportCall) (added : List TorrentReport) :
    (batches calls added).flatten.Sublist (added ++ addedReports calls) := by
  induction calls generalizing added with
  | nil => exact List.nil_sublist _
  | cons call calls ih =>
    cases call with
    | addReport report =>
      have hrest := ih (added ++ [report])
      rwa [List.append_assoc] at hrest
    | flushReports => exact (List.Sublist.refl added).append (ih [])

end

theorem flatten_sublist_flatten {α : Type} {f : List α → List α} (hf : ∀ l, (f l).Sublist l)
    (ls : List (List α)) : (ls.map f).flatten.Sublist ls.flatten := by
  induction ls with
  | nil => exact List.Sublist.refl _
  | cons l ls ih => exact (hf l).append ih

/-- In every run each flush returns, oldest first, the last reports added since the one
before, as many as the ring holds, and how many more there were; put one after the other,
the returned reports are among the added ones, each at most once. -/
theorem flushes_return_last (calls : List ReportCall) :
    Reports.answers calls ⟨[], 0, 0⟩ = ((batches calls []).map fun added =>
      (added.rtake (min added.length maxTorrentReports), added.length - maxTorrentReports)) ∧
    ((Reports.answers calls ⟨[], 0, 0⟩).map Prod.fst).flatten.Sublist (addedReports calls) := by
  have hanswers := answers_eq calls .empty
  refine ⟨hanswers, ?_⟩
  rw [hanswers, List.map_map]
  exact (flatten_sublist_flatten (fun l => List.drop_sublist _ l) _).trans (batches_sublist calls [])

end RemnanodeLite.Plugin
