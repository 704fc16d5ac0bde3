import Provisioning.Ops.PartitionMaintainer
import Provisioning.Ops.Database

/-!
# What a maintenance pass does to the days

The names of the day tables stand for their days, as long as a year has four digits. A pass that comes to its COMMIT
has heard the answer to each statement before it. If the answer to the COMMIT itself is lost, the pass fails and has
done all the same what it set out to do.
-/

namespace Provisioning

open Lib

/-! ## Names -/

/-- The name of the day's table is one that the pass looks for. -/
def ValidDay (day : Nat) : Prop := (Date.ofDays day).year < 10000

instance (day : Nat) : Decidable (ValidDay day) := inferInstanceAs (Decidable (_ < _))

theorem length_month (day : Nat) : (padded 2 (Date.ofDays day).month).length = 2 := by
  have := Date.month_ofDays day
  exact (length_padded_eq_iff (by omega)).2 (by omega)

theorem length_day (day : Nat) : (padded 2 (Date.ofDays day).day).length = 2 := by
  have := Date.day_ofDays day
  exact (length_padded_eq_iff (by omega)).2 (by omega)

theorem length_compactDay (day : Nat) : (compactDay day).length = 8 ↔ ValidDay day := by
  have hyear := @length_padded_eq_iff 4 (Date.ofDays day).year (by omega)
  unfold ValidDay
  simp only [compactDay, List.length_append, length_month, length_day]
  omega

theorem ofDigitChars_compactDay (day : Nat) :
    Nat.ofDigitChars 10 (compactDay day) 0 =
      10000 * (Date.ofDays day).year + 100 * (Date.ofDays day).month + (Date.ofDays day).day := by
  unfold compactDay
  simp only [Nat.ofDigitChars_append, ofDigitChars_padded_init, length_month, length_day]
  omega

theorem compactDay_injective : Function.Injective compactDay := by
  intro a b h
  have hvalue := congrArg (fun l => Nat.ofDigitChars 10 l 0) h
  simp only [ofDigitChars_compactDay] at hvalue
  have ha := Date.month_ofDays a
  have ha' := Date.day_ofDays a
  have hb := Date.month_ofDays b
  have hb' := Date.day_ofDays b
  apply Date.ofDays_injective
  have hyear : (Date.ofDays a).year = (Date.ofDays b).year := by omega
  have hmonth : (Date.ofDays a).month = (Date.ofDays b).month := by omega
  have hday : (Date.ofDays a).day = (Date.ofDays b).day := by omega
  cases hda : Date.ofDays a
  cases hdb : Date.ofDays b
  simp_all

theorem partName_injective : Function.Injective partName := by
  intro a b h
  unfold partName at h
  exact compactDay_injective (List.append_cancel_left (String.ofList_injective h))

theorem drop_partName (day : Nat) : (partName day).toList.drop 11 = compactDay day := by
  have hlen : "operations_".toList.length = 11 := by decide
  unfold partName
  rw [String.toList_ofList, List.drop_left' hlen]

theorem isDayTable_partName (day : Nat) : isDayTable (partName day) ↔ ValidDay day := by
  have htake : (partName day).toList.take 11 = "operations_".toList := by
    have hlen : "operations_".toList.length = 11 := by decide
    unfold partName
    rw [String.toList_ofList, List.take_left' hlen]
  have hdigits : (compactDay day).all Char.isDigit := by
    refine List.all_eq_true.2 fun c hc => ?_
    unfold compactDay at hc
    simp only [List.mem_append] at hc
    rcases hc with hc | hc | hc <;> exact isDigit_of_mem_padded hc
  unfold isDayTable
  simp only [htake, drop_partName, hdigits, decide_eq_true_eq, true_and, and_true]
  exact length_compactDay day

theorem dayOfTable_partName {day : Nat} (h : ValidDay day) : dayOfTable (partName day) = day := by
  have hyear : (padded 4 (Date.ofDays day).year).length = 4 := (length_padded_eq_iff (by omega)).2 h
  have hsix : compactDay day = (padded 4 (Date.ofDays day).year ++ padded 2 (Date.ofDays day).month) ++
      padded 2 (Date.ofDays day).day := by simp [compactDay]
  have hlen : (padded 4 (Date.ofDays day).year ++ padded 2 (Date.ofDays day).month).length = 6 := by
    simp [hyear, length_month]
  have h₁ : (compactDay day).take 4 = padded 4 (Date.ofDays day).year := List.take_left' hyear
  have h₂ : ((compactDay day).drop 4).take 2 = padded 2 (Date.ofDays day).month := by
    unfold compactDay
    rw [List.drop_left' hyear, List.take_left' (length_month day)]
  have h₃ : (compactDay day).drop 6 = padded 2 (Date.ofDays day).day := by
    rw [hsix, List.drop_left' hlen]
  unfold dayOfTable
  simp only [drop_partName, h₁, h₂, h₃, ofDigitChars_padded]
  exact Date.toDays_ofDays day

/-! ## The queries -/

namespace Tables

variable {t : Tables} {today : Nat}

theorem mem_daySeries {n day : Nat} : day ∈ daySeries today n ↔ today ≤ day ∧ day ≤ today + n := by
  unfold daySeries
  simp only [List.mem_map, List.mem_range]
  constructor
  · rintro ⟨k, hk, rfl⟩
    omega
  · intro h
    exact ⟨day - today, by omega, by omega⟩

theorem partName_mem_pgTables {day : Nat} : partName day ∈ t.pgTables ↔ day ∈ t.partitions := by
  have hparent : partName day ∉ ["operations", "operations_history"] := by
    intro h
    have hlen := congrArg List.length (drop_partName day)
    have hfour := le_length_padded 4 (Date.ofDays day).year
    have hname : ((partName day).toList.drop 11).length ≤ 7 := by
      rcases List.mem_pair.1 h with h | h <;> rw [h] <;> decide
    rw [hlen] at hname
    simp only [compactDay, List.length_append, length_month, length_day] at hname
    omega
  unfold pgTables
  rw [List.mem_append, List.mem_map]
  constructor
  · rintro (h | ⟨day', h, heq⟩)
    · exact absurd h hparent
    · exact partName_injective heq ▸ h
  · exact fun h => .inr ⟨day, h, rfl⟩

theorem mem_candidates {retentionDays day : Nat} :
    day ∈ t.candidates today retentionDays ↔ day ∈ t.partitions ∧ ValidDay day ∧ day + retentionDays < today := by
  unfold candidates
  rw [List.mem_mergeSort, List.mem_dedup, List.mem_filter, List.mem_map]
  constructor
  · rintro ⟨⟨name, hname, rfl⟩, hold⟩
    obtain ⟨hmem, htable⟩ := List.mem_filter.1 hname
    unfold pgTables at hmem
    rcases List.mem_append.1 hmem with h | h
    · rcases List.mem_pair.1 h with h | h <;> rw [h] at htable <;> exact absurd htable (by decide)
    · obtain ⟨day, hday, rfl⟩ := List.mem_map.1 h
      have hvalid := (isDayTable_partName day).1 htable
      rw [dayOfTable_partName hvalid] at hold ⊢
      exact ⟨hday, hvalid, of_decide_eq_true hold⟩
  · rintro ⟨hday, hvalid, hold⟩
    refine ⟨⟨partName day, List.mem_filter.2 ⟨partName_mem_pgTables.2 hday, ?_⟩, dayOfTable_partName hvalid⟩,
      decide_eq_true hold⟩
    exact (isDayTable_partName day).2 hvalid

theorem nodup_candidates {retentionDays : Nat} : (t.candidates today retentionDays).Nodup := by
  unfold candidates
  exact (List.mergeSort_perm _ _).nodup_iff.2 (List.nodup_dedup _)

end Tables

/-! ## Creating and dropping days -/

namespace Tables

variable {t : Tables} {today : Nat}

theorem createPartition_partitions {day d : Nat} :
    d ∈ (t.createPartition day).partitions ↔ d ∈ t.partitions ∨ d = day := by
  unfold createPartition
  split
  · rename_i hday
    constructor
    · exact .inl
    · rintro (h | rfl)
      · exact h
      · exact hday
  · simp

theorem createPartition_rows (day : Nat) :
    (t.createPartition day).operations = t.operations ∧ (t.createPartition day).history = t.history := by
  unfold createPartition
  split <;> exact ⟨rfl, rfl⟩

theorem createDays_spec (days : List Nat) (t : Tables) :
    let t' := days.foldl (fun t day => t.createPartition day) t
    (∀ d, d ∈ t'.partitions ↔ d ∈ t.partitions ∨ d ∈ days) ∧ t'.operations = t.operations ∧ t'.history = t.history := by
  induction days generalizing t with
  | nil => simp
  | cons day rest ih =>
    obtain ⟨hdays, hops, hhist⟩ := ih (t.createPartition day)
    refine ⟨fun d => ?_, hops.trans (createPartition_rows day).1, hhist.trans (createPartition_rows day).2⟩
    rw [List.foldl_cons, hdays d, createPartition_partitions, List.mem_cons, or_assoc]

/-- The day has a row that is not terminal. -/
def HoldsLive (t : Tables) (day : Nat) : Prop := ∃ r ∈ t.operations, dayOf r.createdAt = day ∧ ¬ r.status.terminal

instance (t : Tables) (day : Nat) : Decidable (t.HoldsLive day) :=
  inferInstanceAs (Decidable (∃ r ∈ t.operations, _))

/-- `t` without some of its days. -/
def without (days : List Nat) (t : Tables) : Tables :=
  { t with
    operations := t.operations.filter fun r => dayOf r.createdAt ∉ days
    partitions := t.partitions.filter (· ∉ days) }

theorem without_nil : t.without [] = t := by simp [without]

theorem without_without (days days' : List Nat) : (t.without days).without days' = t.without (days ++ days') := by
  simp [without, List.filter_filter, Bool.and_comm]

theorem liveRows_pos {day : Nat} : 0 < t.liveRows day ↔ t.HoldsLive day := by
  unfold liveRows HoldsLive
  rw [List.countP_pos_iff]
  simp

theorem dropTable_eq (day : Nat) : t.dropTable day = t.without [day] := by simp [dropTable, without]

theorem dropPartition_of_mem {day : Nat} (h : day ∈ t.partitions) :
    t.dropPartition day = if t.HoldsLive day then (false, t) else (true, t.without [day]) := by
  unfold dropPartition
  rw [if_neg (not_not.2 h)]
  by_cases hlive : t.HoldsLive day
  · rw [if_pos (liveRows_pos.2 hlive), if_pos hlive]
  · rw [if_neg fun hpos => hlive (liveRows_pos.1 hpos), if_neg hlive, dropTable_eq]

theorem holdsLive_without {days : List Nat} {day : Nat} (h : day ∉ days) :
    (t.without days).HoldsLive day ↔ t.HoldsLive day := by
  unfold HoldsLive without
  simp only [List.mem_filter, decide_eq_true_eq]
  constructor
  · rintro ⟨r, ⟨hr, -⟩, hday, hlive⟩
    exact ⟨r, hr, hday, hlive⟩
  · rintro ⟨r, hr, rfl, hlive⟩
    exact ⟨r, ⟨hr, h⟩, rfl, hlive⟩

end Tables

/-! ## Rules for a pass -/

/-- The statement is sent, and `fault` goes wrong with it. -/
def PassState.ask (label : PassStatement) (fault : Option Fault) (s : PassState) : PassState :=
  { s with sent := s.sent ++ [(label, fault)] }

namespace Pass

variable {α β : Type} {s : PassState}

/-- `Ok` holds after `x` from `s`, or `Err` when it throws. -/
def Ensures (x : Pass α) (s : PassState) (Ok : α → PassState → Prop) (Err : String → PassState → Prop) : Prop :=
  ∀ r s', x s = (r, s') → (∀ a, r = .ok a → Ok a s') ∧ ∀ e, r = .error e → Err e s'

variable {x : Pass α} {f : α → Pass β} {Ok : α → PassState → Prop} {Ok' : β → PassState → Prop}
  {Err : String → PassState → Prop}

theorem ensures_pure {a : α} (h : Ok a s) : Ensures (pure a) s Ok Err := by
  intro r s' hrun
  cases hrun
  exact ⟨fun a' ha => by cases ha; exact h, fun e he => by cases he⟩

theorem ensures_modify {g : PassState → PassState} {Ok : Unit → PassState → Prop} (h : Ok () (g s)) :
    Ensures (modify g) s Ok Err := by
  intro r s' hrun
  cases hrun
  exact ⟨fun _ _ => h, fun e he => by cases he⟩

theorem bind_apply (x : Pass α) (f : α → Pass β) (s : PassState) :
    (x >>= f) s = ExceptT.bindCont f (x s).1 (x s).2 := rfl

theorem ensures_bind (hx : Ensures x s (fun a s' => Ensures (f a) s' Ok' Err) Err) :
    Ensures (x >>= f) s Ok' Err := by
  intro r s' hrun
  cases hxs : x s with
  | mk r₁ s₁ =>
    obtain ⟨hok, herr⟩ := hx r₁ s₁ hxs
    rw [bind_apply, hxs] at hrun
    cases r₁ with
    | ok a => exact hok a rfl r s' hrun
    | error e =>
      cases hrun
      exact ⟨fun _ ha => (by cases ha), fun e' he => by cases he; exact herr e rfl⟩

theorem ensures_query {faults : Nat → Option Fault} {label : PassStatement} {statement : PassState → α × PassState}
    (hok : faults s.sent.length = none → Ok (statement (s.ask label none)).1 (statement (s.ask label none)).2)
    (hfailed : ∀ e, faults s.sent.length = some (.failed e) → Err e (s.ask label (some (.failed e))))
    (hunheard : ∀ e, faults s.sent.length = some (.unheard e) → Err e (statement (s.ask label (some (.unheard e)))).2) :
    Ensures (PartitionMaintainer.query faults label statement) s Ok Err := by
  intro r s' hrun
  unfold PartitionMaintainer.query at hrun
  cases hfault : faults s.sent.length with
  | none =>
    rw [hfault] at hrun
    cases hrun
    exact ⟨fun a ha => by cases ha; exact hok hfault, fun e he => by cases he⟩
  | some fault =>
    rw [hfault] at hrun
    cases fault with
    | failed message =>
      cases hrun
      exact ⟨fun a ha => (by cases ha), fun e he => by cases he; exact hfailed message hfault⟩
    | unheard message =>
      cases hrun
      exact ⟨fun a ha => (by cases ha), fun e he => by cases he; exact hunheard message hfault⟩

end Pass

/-! ## The pass -/

namespace PartitionMaintainer

variable {faults : Nat → Option Fault} {config : PartitionMaintainerConfig} {today : Nat} {t : Tables}

/-- The transaction is still open: nobody else sees what it did. -/
structure Open (t : Tables) (s : PassState) : Prop where
  committed : s.committed = t
  ended : s.ended = false

/-- The pass has heard the answer to all that it sent, and has still to commit. -/
structure Heard (faults : Nat → Option Fault) (sent : List (PassStatement × Option Fault)) : Prop where
  all : ∀ x ∈ sent, x.1 ≠ .commit ∧ x.2 = none
  faults : ∀ n < sent.length, faults n = none

theorem Heard.append {sent : List (PassStatement × Option Fault)} (h : Heard faults sent) {label : PassStatement}
    (hlabel : label ≠ .commit) (hfault : faults sent.length = none) : Heard faults (sent ++ [(label, none)]) where
  all x hx := by
    rcases List.mem_append.1 hx with hx | hx
    · exact h.all x hx
    · cases List.mem_singleton.1 hx
      exact ⟨hlabel, rfl⟩
  faults n hn := by
    rw [List.length_append, List.length_singleton] at hn
    rcases Nat.lt_succ_iff_lt_or_eq.1 hn with hn | rfl
    · exact h.faults n hn
    · exact hfault

/-- The pass came as far as `label`, and `fault` went wrong with it. -/
def EndsWith (faults : Nat → Option Fault) (label : PassStatement) (fault : Option Fault) (s : PassState) : Prop :=
  ∃ heard, Heard faults heard ∧ s.sent = heard ++ [(label, fault)] ∧ faults heard.length = fault

/-- A statement failed before the transaction could commit. -/
structure Failed (faults : Nat → Option Fault) (t : Tables) (e : String) (s : PassState) : Prop extends Open t s where
  last : ∃ label fault, EndsWith faults label (some fault) s ∧ fault.message = e ∧ (label = .commit → fault = .failed e)

/-- The transaction sees `seen`, and has counted a refusal for each day of `kept`. -/
structure Sees (faults : Nat → Option Fault) (t seen : Tables) (kept : List Nat) (s : PassState) : Prop
    extends Open t s where
  tables : s.tables = seen
  refused : s.refused = kept.map isoDay
  daysAhead : s.daysAhead = []
  errors : s.errors = []
  heard : Heard faults s.sent

theorem Sees.onTables {α : Type} {seen : Tables} {kept : List Nat} {s : PassState} (h : Sees faults t seen kept s)
    {label : PassStatement} (hlabel : label ≠ .commit) (hfault : faults s.sent.length = none)
    (f : Tables → α × Tables) :
    (onTables f (s.ask label none)).1 = (f seen).1 ∧
      Sees faults t (f seen).2 kept (onTables f (s.ask label none)).2 := by
  unfold PartitionMaintainer.onTables PassState.ask
  rw [h.tables]
  exact ⟨rfl, { h with tables := rfl, heard := h.heard.append hlabel hfault }⟩

theorem ensures_onTables {α : Type} {seen : Tables} {kept : List Nat} {s : PassState} (h : Sees faults t seen kept s)
    {label : PassStatement} (hlabel : label ≠ .commit) (f : Tables → α × Tables) {Ok : α → PassState → Prop}
    {Err : String → PassState → Prop} (herr : ∀ e s', s'.errors = [] ∧ Failed faults t e s' → Err e s')
    (hok : ∀ s', Sees faults t (f seen).2 kept s' → Ok (f seen).1 s') :
    Pass.Ensures (query faults label (PartitionMaintainer.onTables f)) s Ok Err := by
  have last : ∀ fault : Fault, faults s.sent.length = some fault →
      ∃ label' fault', EndsWith faults label' (some fault') (s.ask label (some fault)) ∧
        fault'.message = fault.message ∧ (label' = .commit → fault' = .failed fault.message) :=
    fun fault hfault => ⟨label, fault, ⟨_, h.heard, rfl, hfault⟩, rfl, fun heq => absurd heq hlabel⟩
  refine Pass.ensures_query (fun hfault => ?_) (fun e hfault => herr e _ ?_) (fun e hfault => herr e _ ?_)
  · obtain ⟨hvalue, hstate⟩ := h.onTables hlabel hfault f
    exact hvalue ▸ hok _ hstate
  · exact ⟨h.errors, ⟨h.committed, h.ended⟩, last (.failed e) hfault⟩
  · exact ⟨h.errors, ⟨h.committed, h.ended⟩, last (.unheard e) hfault⟩

theorem ensures_dropCandidates (days : List Nat) {dropped kept : List Nat} {s : PassState} {seen : Tables}
    (hnodup : days.Nodup) (hfresh : ∀ d ∈ days, d ∈ seen.partitions ∧ d ∉ dropped)
    (h : Sees faults t (seen.without dropped) kept s) {Ok : Unit → PassState → Prop}
    {Err : String → PassState → Prop} (herr : ∀ e s', s'.errors = [] ∧ Failed faults t e s' → Err e s')
    (hok : ∀ s', Sees faults t (seen.without (dropped ++ days.filter (¬ seen.HoldsLive ·)))
      (kept ++ days.filter (seen.HoldsLive ·)) s' → Ok () s') :
    Pass.Ensures (dropCandidates faults days) s Ok Err := by
  induction days generalizing dropped kept s with
  | nil =>
    refine Pass.ensures_pure (hok s ?_)
    simpa using h
  | cons day rest ih =>
    obtain ⟨hday, hnodup⟩ := List.nodup_cons.1 hnodup
    obtain ⟨hin, hnew⟩ := hfresh day List.mem_cons_self
    have hrest : ∀ d ∈ rest, d ∈ seen.partitions ∧ d ∉ dropped := fun d hd => hfresh d (List.mem_cons_of_mem _ hd)
    have hthere : day ∈ (seen.without dropped).partitions := by
      unfold Tables.without
      simp [hin, hnew]
    have hdrop := Tables.dropPartition_of_mem hthere
    refine Pass.ensures_bind (ensures_onTables h (by simp) _ herr fun s₁ h₁ => ?_)
    by_cases hlive : seen.HoldsLive day
    · rw [hdrop, if_pos ((Tables.holdsLive_without hnew).2 hlive)] at h₁ ⊢
      refine Pass.ensures_bind (ensures_onTables h₁ (by simp) _ herr fun s₂ h₂ => ?_)
      refine Pass.ensures_bind (Pass.ensures_modify ?_)
      have hcounted : Sees faults t (seen.without dropped) (kept ++ [day])
          { s₂ with
            warnings := s₂.warnings ++ ["[partitions] retained " ++ partName day ++ ": " ++
              toString ((seen.without dropped).liveRows day) ++ " non-terminal row(s)"]
            refused := s₂.refused ++ [isoDay day] } := by
        refine { h₂ with refused := ?_ }
        simp [h₂.refused]
      refine ih hnodup hrest hcounted fun s' hs' => hok s' ?_
      simpa [hlive] using hs'
    · rw [hdrop, if_neg fun hl => hlive ((Tables.holdsLive_without hnew).1 hl), Tables.without_without] at h₁ ⊢
      refine ih hnodup (fun d hd => ⟨(hrest d hd).1, ?_⟩) h₁ fun s' hs' => hok s' ?_
      · intro hmem
        rcases List.mem_append.1 hmem with hmem | hmem
        · exact (hrest d hd).2 hmem
        · exact hday (List.mem_singleton.1 hmem ▸ hd)
      · simpa [hlive] using hs'

/-- `n` days in a row from `today` on exist, and no more than `n` or than the probe looks at. -/
structure UnbrokenRun (existing : List Nat) (today probeCap n : Nat) : Prop where
  capped : n ≤ probeCap + 1
  exist : ∀ k < n, today + k ∈ existing
  ends : n = probeCap + 1 ∨ today + n ∉ existing

theorem takeWhile_spec (present : List Bool) :
    (present.takeWhile id).length ≤ present.length ∧
      (∀ k < (present.takeWhile id).length, present[k]? = some true) ∧
      ((present.takeWhile id).length = present.length ∨ present[(present.takeWhile id).length]? = some false) := by
  induction present with
  | nil => simp
  | cons p rest ih =>
    obtain ⟨hle, hall, hend⟩ := ih
    cases p with
    | false => simp
    | true =>
      simp only [List.takeWhile_cons, id, if_true, List.length_cons, List.getElem?_cons_succ]
      refine ⟨by omega, fun k hk => ?_, hend.imp_left (congrArg (· + 1))⟩
      cases k with
      | zero => rfl
      | succ k =>
        rw [List.getElem?_cons_succ]
        exact hall k (by omega)

theorem unbrokenRun_probe (t : Tables) (today probeCap : Nat) :
    UnbrokenRun t.partitions today probeCap ((t.probe today probeCap).takeWhile id).length := by
  obtain ⟨hle, hall, hend⟩ := takeWhile_spec (t.probe today probeCap)
  have hlen : (t.probe today probeCap).length = probeCap + 1 := by simp [Tables.probe, daySeries]
  have hget : ∀ k < probeCap + 1, (t.probe today probeCap)[k]? = some (decide (today + k ∈ t.partitions)) := by
    intro k hk
    unfold Tables.probe daySeries
    rw [List.map_map, List.getElem?_map, List.getElem?_range hk]
    simp [Tables.partName_mem_pgTables]
  generalize ((t.probe today probeCap).takeWhile id).length = n at *
  refine ⟨by omega, fun k hk => ?_, ?_⟩
  · have := (hget k (by omega)).symm.trans (hall k hk)
    simpa using this
  · rw [hlen] at hend
    rcases hend with hend | hend
    · exact .inl hend
    · by_cases hn : n = probeCap + 1
      · exact .inl hn
      · have := (hget n (by omega)).symm.trans hend
        exact .inr (by simpa using this)

/-- The days that the pass tries to drop, seen after it has created the days ahead. -/
def oldDays (config : PartitionMaintainerConfig) (today : Nat) (t : Tables) : List Nat :=
  (t.createSeries today config.lookahead).candidates today config.retentionDays

/-- What a pass that commits leaves behind. -/
def maintained (config : PartitionMaintainerConfig) (today : Nat) (t : Tables) : Tables :=
  (t.createSeries today config.lookahead).without
    ((oldDays config today t).filter (¬ (t.createSeries today config.lookahead).HoldsLive ·))

def keptDays (config : PartitionMaintainerConfig) (today : Nat) (t : Tables) : List Nat :=
  (oldDays config today t).filter ((t.createSeries today config.lookahead).HoldsLive ·)

/-- The transaction has committed, and `fault` went wrong with the answer. -/
structure Done (faults : Nat → Option Fault) (config : PartitionMaintainerConfig) (today : Nat) (t : Tables)
    (fault : Option Fault) (s : PassState) : Prop where
  committed : s.committed = maintained config today t
  ended : s.ended = true
  refused : s.refused = (keptDays config today t).map isoDay
  daysAhead : s.daysAhead = [(((maintained config today t).probe today config.probeCap).takeWhile id).length]
  last : EndsWith faults .commit fault s

theorem Sees.done {s : PassState} (h : Sees faults t (maintained config today t) (keptDays config today t) s)
    {fault : Option Fault} (hfault : faults s.sent.length = fault) :
    let daysAhead := (((maintained config today t).probe today config.probeCap).takeWhile id).length
    Done faults config today t fault
      (commit ({ s with daysAhead := s.daysAhead ++ [daysAhead] }.ask .commit fault)).2 := by
  refine ⟨h.tables, rfl, h.refused, ?_, _, h.heard, rfl, hfault⟩
  unfold commit PassState.ask
  rw [h.daysAhead]
  rfl

theorem ensures_attempt {s : PassState} (h : Sees faults t t [] s) :
    Pass.Ensures (attempt faults config today) s (fun _ s' => s'.errors = [] ∧ Done faults config today t none s')
      (fun e s' => s'.errors = [] ∧ (Failed faults t e s' ∨ Done faults config today t (some (.unheard e)) s')) := by
  have herr : ∀ e s', s'.errors = [] ∧ Failed faults t e s' →
      s'.errors = [] ∧ (Failed faults t e s' ∨ Done faults config today t (some (.unheard e)) s') :=
    fun _ _ h => ⟨h.1, .inl h.2⟩
  unfold attempt
  refine Pass.ensures_bind (ensures_onTables h (by simp) _ herr fun s₁ h₁ => ?_)
  refine Pass.ensures_bind (ensures_onTables h₁ (by simp) _ herr fun s₂ h₂ => ?_)
  refine Pass.ensures_bind (ensures_onTables h₂ (by simp) _ herr fun s₃ h₃ => ?_)
  refine Pass.ensures_bind (ensures_onTables h₃ (by simp) _ herr fun s₄ h₄ => ?_)
  have h₄' : Sees faults t ((t.createSeries today config.lookahead).without []) [] s₄ := by
    rw [Tables.without_nil]
    exact h₄
  have hold : ∀ d ∈ oldDays config today t, d ∈ (t.createSeries today config.lookahead).partitions ∧ d ∉ [] :=
    fun d hd => ⟨(Tables.mem_candidates.1 hd).1, List.not_mem_nil⟩
  refine Pass.ensures_bind (ensures_dropCandidates _ Tables.nodup_candidates hold h₄' herr fun s₅ h₅ => ?_)
  refine Pass.ensures_bind (Pass.ensures_bind (ensures_onTables h₅ (by simp) _ herr fun s₆ h₆ =>
    Pass.ensures_pure ?_))
  refine Pass.ensures_bind (Pass.ensures_modify ?_)
  -- The last statement is the commit. If its answer is not heard, the pass has committed all the same.
  refine Pass.ensures_query (fun hfault => ⟨h₆.errors, Sees.done h₆ hfault⟩) (fun e hfault => ?_)
    (fun e hfault => ⟨h₆.errors, .inr (Sees.done h₆ hfault)⟩)
  refine ⟨h₆.errors, .inl ⟨⟨h₆.committed, h₆.ended⟩, ?_⟩⟩
  exact ⟨.commit, .failed e, ⟨_, h₆.heard, rfl, hfault⟩, rfl, fun _ => rfl⟩

/-! ## The result -/

theorem start_sees (t : Tables) : Sees faults t t [] ⟨t, t, false, [], [], [], [], []⟩ :=
  ⟨⟨rfl, rfl⟩, rfl, rfl, rfl, rfl, fun _ h => (by cases h), fun _ h => (by cases h)⟩

theorem runPass_cases (faults : Nat → Option Fault) (config : PartitionMaintainerConfig) (today : Nat) (t : Tables) :
    let s := runPass faults config today t
    (s.errors = [] ∧ Done faults config today t none s) ∨
      ∃ e, s.errors = ["[partitions] maintenance pass failed: " ++ e] ∧
        (Failed faults t e s ∨ Done faults config today t (some (.unheard e)) s) := by
  intro s
  cases hrun : attempt faults config today ⟨t, t, false, [], [], [], [], []⟩ with
  | mk r s' =>
    obtain ⟨hok, herr⟩ := ensures_attempt (start_sees t) r s' hrun
    cases r with
    | ok u =>
      have hs : s = s' := by
        show runPass faults config today t = s'
        unfold runPass
        simp only [hrun]
      rw [hs]
      exact .inl (hok u rfl)
    | error e =>
      have hs : s = { s' with errors := s'.errors ++ ["[partitions] maintenance pass failed: " ++ e] } := by
        show runPass faults config today t = _
        unfold runPass
        simp only [hrun]
      obtain ⟨hnone, hcases⟩ := herr e rfl
      rw [hs]
      refine .inr ⟨e, by rw [hnone]; rfl, ?_⟩
      rcases hcases with hfailed | hdone
      · exact .inl ⟨⟨hfailed.committed, hfailed.ended⟩, hfailed.last⟩
      · exact .inr ⟨hdone.committed, hdone.ended, hdone.refused, hdone.daysAhead, hdone.last⟩

theorem runPass_done_or_open (faults : Nat → Option Fault) (config : PartitionMaintainerConfig) (today : Nat)
    (t : Tables) :
    (∃ fault, Done faults config today t fault (runPass faults config today t)) ∨
      Open t (runPass faults config today t) := by
  rcases runPass_cases faults config today t with ⟨-, hdone⟩ | ⟨e, -, hfailed | hdone⟩
  · exact .inl ⟨_, hdone⟩
  · exact .inr hfailed.toOpen
  · exact .inl ⟨_, hdone⟩

/-! ## The pass among the other statements -/

section Steps

variable {advisoryLockKey : String → BitVec 64}

theorem runs_createDays (days : List Nat) (db : Db) :
    Runs (Db.step advisoryLockKey) anyStep db
      { db with tables := days.foldl (fun t day => t.createPartition day) db.tables } := by
  induction days generalizing db with
  | nil => exact .start
  | cons day rest ih =>
    have created : db.step advisoryLockKey (.createPartition day) =
        some { db with tables := db.tables.createPartition day } := rfl
    exact (Runs.start.next created trivial).trans (ih _)

theorem runs_dropDays {retentionDays : Nat} (days : List Nat) (db : Db) (hretention : 1 ≤ retentionDays)
    (hold : ∀ d ∈ days, d + retentionDays < dayOf db.now ∧ d ∈ db.tables.partitions ∧ ¬ db.tables.HoldsLive d)
    (hnodup : days.Nodup) (unclaimed : db.claims.isEmpty) (idle : ∀ e ∈ db.enqueues, ¬ e.phase.touchesTable)
    (settled : db.dropping = []) :
    Runs (Db.step advisoryLockKey) anyStep db { db with tables := db.tables.without days } := by
  induction days generalizing db with
  | nil =>
    rw [Tables.without_nil]
    exact .start
  | cons day rest ih =>
    obtain ⟨hday, hnodup⟩ := List.nodup_cons.1 hnodup
    obtain ⟨hpast, hin, hlive⟩ := hold day List.mem_cons_self
    have counted : db.step advisoryLockKey (.countLive day retentionDays) = some { db with dropping := [day] } := by
      have hnone : db.tables.liveRows day = 0 := Nat.eq_zero_of_not_pos fun h => hlive (Tables.liveRows_pos.1 h)
      simp only [Db.step, Db.countLive, hnone, settled, List.nil_append, if_true]
      exact if_pos ⟨hretention, hpast, hin⟩
    have dropped : ({ db with dropping := [day] } : Db).step advisoryLockKey (.dropPartition day) =
        some { db with tables := db.tables.without [day] } := by
      have hemptied : [day].filter (· ≠ day) = db.dropping := by simp [settled]
      simp only [Db.step, Db.dropPartition, Tables.dropTable_eq, hemptied]
      exact if_pos ⟨List.mem_singleton_self day, unclaimed, idle⟩
    have hrest : ∀ d ∈ rest, d + retentionDays < dayOf db.now ∧ d ∈ (db.tables.without [day]).partitions ∧
        ¬ (db.tables.without [day]).HoldsLive d := by
      intro d hd
      obtain ⟨hpast, hin, hlive⟩ := hold d (List.mem_cons_of_mem _ hd)
      have hne : d ∉ [day] := fun h => hday (List.mem_singleton.1 h ▸ hd)
      refine ⟨hpast, List.mem_filter.2 ⟨hin, decide_eq_true hne⟩, ?_⟩
      rwa [Tables.holdsLive_without hne]
    have more := ih { db with tables := db.tables.without [day] } hrest hnodup unclaimed idle settled
    rw [Tables.without_without] at more
    exact ((Runs.start.next counted trivial).next dropped trivial).trans more

/-- A pass that commits when no other transaction has touched the table takes steps of the database. -/
theorem runs_maintained (config : PartitionMaintainerConfig) (db : Db) (hretention : 1 ≤ config.retentionDays)
    (unclaimed : db.claims.isEmpty) (idle : ∀ e ∈ db.enqueues, ¬ e.phase.touchesTable) (settled : db.dropping = []) :
    Runs (Db.step advisoryLockKey) anyStep db
      { db with tables := maintained config (dayOf db.now) db.tables } := by
  refine (runs_createDays (daySeries (dayOf db.now) config.lookahead) db).trans ?_
  refine runs_dropDays _ { db with tables := db.tables.createSeries (dayOf db.now) config.lookahead } hretention ?_
    (Tables.nodup_candidates.filter _) unclaimed idle settled
  intro d hd
  obtain ⟨hmem, hlive⟩ := List.mem_filter.1 hd
  obtain ⟨hin, -, hpast⟩ := Tables.mem_candidates.1 hmem
  exact ⟨hpast, hin, of_decide_eq_true hlive⟩

end Steps

theorem createSeries_spec :
    (∀ d, d ∈ (t.createSeries today config.lookahead).partitions ↔
      d ∈ t.partitions ∨ (today ≤ d ∧ d ≤ today + config.lookahead)) ∧
    (t.createSeries today config.lookahead).operations = t.operations ∧
    (t.createSeries today config.lookahead).history = t.history := by
  obtain ⟨hdays, hops, hhist⟩ := Tables.createDays_spec (daySeries today config.lookahead) t
  refine ⟨fun d => ?_, hops, hhist⟩
  rw [← Tables.mem_daySeries]
  exact hdays d

theorem holdsLive_createSeries {d : Nat} : (t.createSeries today config.lookahead).HoldsLive d ↔ t.HoldsLive d := by
  unfold Tables.HoldsLive
  rw [createSeries_spec.2.1]

/-- Before `today - retentionDays`. -/
def Older (config : PartitionMaintainerConfig) (today d : Nat) : Prop := d + config.retentionDays < today

instance (config : PartitionMaintainerConfig) (today d : Nat) : Decidable (Older config today d) :=
  inferInstanceAs (Decidable (_ < _))

theorem mem_oldDays (valid : ∀ d ∈ t.partitions, ValidDay d) {d : Nat} :
    d ∈ oldDays config today t ↔ d ∈ t.partitions ∧ Older config today d := by
  unfold oldDays Older
  rw [Tables.mem_candidates, createSeries_spec.1]
  constructor
  · rintro ⟨hd | hd, -, hold⟩
    · exact ⟨hd, hold⟩
    · omega
  · rintro ⟨hd, hold⟩
    exact ⟨.inl hd, valid d hd, hold⟩

theorem mem_keptDays (valid : ∀ d ∈ t.partitions, ValidDay d) {d : Nat} :
    d ∈ keptDays config today t ↔ d ∈ t.partitions ∧ Older config today d ∧ t.HoldsLive d := by
  unfold keptDays
  rw [List.mem_filter, mem_oldDays valid, decide_eq_true_eq, holdsLive_createSeries, and_assoc]

theorem mem_maintained (valid : ∀ d ∈ t.partitions, ValidDay d) {d : Nat} :
    d ∈ (maintained config today t).partitions ↔
      (today ≤ d ∧ d ≤ today + config.lookahead) ∨
        (d ∈ t.partitions ∧ (¬ Older config today d ∨ t.HoldsLive d)) := by
  unfold maintained Tables.without
  simp only [List.mem_filter, mem_oldDays valid, createSeries_spec.1, decide_eq_true_eq, holdsLive_createSeries]
  constructor
  · rintro ⟨hd | hd, hkept⟩
    · exact .inr ⟨hd, by tauto⟩
    · exact .inl hd
  · rintro (hd | ⟨hd, hkept⟩)
    · have hnot : ¬ Older config today d := by
        unfold Older
        omega
      exact ⟨.inr hd, by tauto⟩
    · exact ⟨.inl hd, by tauto⟩

/-- The rows in the partition of a day. -/
def rowsOf (t : Tables) (d : Nat) : List Row := t.operations.filter fun r => dayOf r.createdAt = d

theorem rowsOf_maintained {d : Nat} (hd : d ∈ (maintained config today t).partitions) :
    rowsOf (maintained config today t) d = rowsOf t d := by
  unfold maintained Tables.without at hd ⊢
  unfold rowsOf
  rw [List.filter_filter, createSeries_spec.2.1]
  refine List.filter_congr fun r _ => ?_
  by_cases hday : dayOf r.createdAt = d
  · have := (List.mem_filter.1 hd).2
    rw [hday]
    simpa using this
  · simp [hday]

/-- What a pass that commits leaves behind and reports. -/
structure Maintains (config : PartitionMaintainerConfig) (today : Nat) (t : Tables) (s : PassState) : Prop where
  partitions : ∀ d, d ∈ s.committed.partitions ↔
    (today ≤ d ∧ d ≤ today + config.lookahead) ∨ (d ∈ t.partitions ∧ (¬ Older config today d ∨ t.HoldsLive d))
  rows : ∀ d ∈ s.committed.partitions, rowsOf s.committed d = rowsOf t d
  history : s.committed.history = t.history
  refused : ∃ kept : List Nat, kept.Nodup ∧
    (∀ d, d ∈ kept ↔ d ∈ t.partitions ∧ Older config today d ∧ t.HoldsLive d) ∧ s.refused = kept.map isoDay
  daysAhead : ∃ n, s.daysAhead = [n] ∧ UnbrokenRun s.committed.partitions today config.probeCap n

theorem Done.maintains {fault : Option Fault} {s : PassState} (h : Done faults config today t fault s)
    (valid : ∀ d ∈ t.partitions, ValidDay d) : Maintains config today t s where
  partitions d := by
    rw [h.committed]
    exact mem_maintained valid
  rows d := by
    rw [h.committed]
    exact fun hd => rowsOf_maintained hd
  history := by
    rw [h.committed]
    exact createSeries_spec.2.2
  refused := ⟨_, Tables.nodup_candidates.filter _, fun d => mem_keptDays valid, h.refused⟩
  daysAhead := by
    rw [h.committed]
    exact ⟨_, h.daysAhead, unbrokenRun_probe _ _ _⟩

/-- What the pass sent before its last statement was answered, and was no commit. -/
theorem EndsWith.of_mem {label : PassStatement} {fault : Option Fault} {s : PassState}
    (h : EndsWith faults label fault s) {x : PassStatement × Option Fault} (hx : x ∈ s.sent) :
    (x.1 ≠ .commit ∧ x.2 = none) ∨ x = (label, fault) := by
  obtain ⟨heard, hheard, hs, -⟩ := h
  rw [hs, List.mem_append, List.mem_singleton] at hx
  exact hx.imp_left (hheard.all x)

theorem EndsWith.of_commit {label : PassStatement} {fault fault' : Option Fault} {s : PassState}
    (h : EndsWith faults label fault s) (hsent : (.commit, fault') ∈ s.sent) : label = .commit ∧ fault' = fault := by
  rcases h.of_mem hsent with ⟨hcommit, -⟩ | hlast
  · exact absurd rfl hcommit
  · cases hlast
    exact ⟨rfl, rfl⟩

theorem EndsWith.of_fault {label label' : PassStatement} {fault : Option Fault} {fault' : Fault} {s : PassState}
    (h : EndsWith faults label fault s) (hsent : (label', some fault') ∈ s.sent) :
    label' = label ∧ fault = some fault' := by
  rcases h.of_mem hsent with ⟨-, hnone⟩ | hlast
  · cases hnone
  · cases hlast
    exact ⟨rfl, rfl⟩

theorem EndsWith.mem {label : PassStatement} {fault : Option Fault} {s : PassState}
    (h : EndsWith faults label fault s) : (label, fault) ∈ s.sent := by
  obtain ⟨heard, -, hs, -⟩ := h
  rw [hs]
  exact List.mem_append_right _ (List.mem_singleton_self _)

theorem EndsWith.numbered {label : PassStatement} {fault : Option Fault} {s : PassState}
    (h : EndsWith faults label fault s) {n : Nat} {x : PassStatement × Option Fault} (hx : s.sent[n]? = some x) :
    x.2 = faults n := by
  obtain ⟨heard, hheard, hs, hlast⟩ := h
  rw [hs] at hx
  by_cases hn : n < heard.length
  · rw [List.getElem?_append_left hn] at hx
    rw [(hheard.all x (List.mem_of_getElem? hx)).2, hheard.faults n hn]
  · obtain ⟨hlen, -⟩ := List.getElem?_eq_some_iff.1 hx
    rw [List.length_append, List.length_singleton] at hlen
    obtain rfl : n = heard.length := by omega
    rw [List.getElem?_append_right (Nat.le_refl _), Nat.sub_self, List.getElem?_cons_zero] at hx
    cases hx
    exact hlast.symm

/-- What a pass does to the days, with any faults of its statements. -/
theorem runPass_days (faults : Nat → Option Fault) (config : PartitionMaintainerConfig) (today : Nat) (t : Tables)
    (valid : ∀ d ∈ t.partitions, ValidDay d) :
    let s := runPass faults config today t
    (s.errors = [] ↔ (PassStatement.commit, none) ∈ s.sent) ∧
    (s.errors ≠ [] ↔ ∃ label fault, (label, some fault) ∈ s.sent) ∧
    (∀ label fault, (label, some fault) ∈ s.sent →
      s.errors = ["[partitions] maintenance pass failed: " ++ fault.message]) ∧
    (∀ n label fault, s.sent[n]? = some (label, fault) → fault = faults n) ∧
    -- The database has taken the COMMIT, whether its answer was heard or not.
    (∀ fault, (PassStatement.commit, fault) ∈ s.sent → (∀ e, fault ≠ some (.failed e)) → Maintains config today t s) ∧
    (∀ label fault, (label, some fault) ∈ s.sent → (label = .commit → ∃ e, fault = .failed e) → s.committed = t) := by
  intro s
  rcases runPass_cases faults config today t with ⟨hnone, hdone⟩ | ⟨e, hone, hfailed | hdone⟩
  · have silent : ∀ label fault, (label, some fault) ∉ s.sent := fun label fault hsent => by
      cases (hdone.last.of_fault hsent).2
    refine ⟨iff_of_true hnone hdone.last.mem, iff_of_false (not_not.2 hnone) ?_, ?_,
      fun _ _ _ => hdone.last.numbered, ?_, ?_⟩
    · rintro ⟨label, fault, hsent⟩
      exact silent label fault hsent
    · exact fun label fault hsent => absurd hsent (silent label fault)
    · exact fun _ _ _ => hdone.maintains valid
    · exact fun label fault hsent => absurd hsent (silent label fault)
  · obtain ⟨label, fault, hlast, hmessage, hcommit⟩ := hfailed.last
    have hsome : s.errors ≠ [] := fun h => List.cons_ne_nil _ _ (hone.symm.trans h)
    refine ⟨iff_of_false hsome fun hsent => ?_, iff_of_true hsome ⟨label, fault, hlast.mem⟩, ?_,
      fun _ _ _ => hlast.numbered, ?_, ?_⟩
    · cases (hlast.of_commit hsent).2
    · intro label' fault' hsent
      cases (hlast.of_fault hsent).2
      rw [hmessage]
      exact hone
    · intro fault' hsent hheard
      obtain ⟨hlabel, rfl⟩ := hlast.of_commit hsent
      exact absurd (congrArg some (hcommit hlabel)) (hheard e)
    · exact fun _ _ _ _ => hfailed.committed
  · have hsome : s.errors ≠ [] := fun h => List.cons_ne_nil _ _ (hone.symm.trans h)
    refine ⟨iff_of_false hsome fun hsent => ?_, iff_of_true hsome ⟨_, _, hdone.last.mem⟩, ?_,
      fun _ _ _ => hdone.last.numbered, ?_, ?_⟩
    · cases (hdone.last.of_commit hsent).2
    · intro label' fault' hsent
      cases (hdone.last.of_fault hsent).2
      exact hone
    · exact fun _ _ _ => hdone.maintains valid
    · intro label' fault' hsent hfailed
      obtain ⟨rfl, heq⟩ := hdone.last.of_fault hsent
      cases heq
      obtain ⟨e', he'⟩ := hfailed rfl
      cases he'

/-- Two old days of which the first holds a row that is not terminal, and a gap ahead. -/
def twoOldDays : Tables where
  operations := [EnqueueInput.newRow ⟨"crm", "user", .delete, "l", "k", none, some "u", none, none⟩ 1 (100 * 86400000)]
  history := []
  partitions := [100, 101, 20003]

theorem twoOldDays_pass :
    let s := runPass (fun _ => none) ⟨1, none, none⟩ 20000 twoOldDays
    100 ∈ s.committed.partitions ∧ 101 ∉ s.committed.partitions ∧ 20001 ∈ s.committed.partitions := by
  intro s
  obtain ⟨hheard, hfailed, -, hnumbered, htaken, -⟩ :=
    runPass_days (fun _ => none) ⟨1, none, none⟩ 20000 twoOldDays (by decide)
  have hnone : s.errors = [] := by
    by_contra hsome
    obtain ⟨label, fault, hsent⟩ := hfailed.1 hsome
    obtain ⟨n, hn⟩ := List.getElem?_of_mem hsent
    cases hnumbered n label (some fault) hn
  have hdays := (htaken none (hheard.1 hnone) (by simp)).partitions
  refine ⟨(hdays 100).2 ?_, fun h => absurd ((hdays 101).1 h) ?_, (hdays 20001).2 ?_⟩ <;> decide

/-- The connection is lost after the COMMIT and before its answer. The pass fails, and it has dropped the day. -/
theorem pass_unheard :
    let s := runPass (fun n => if n = 6 then some (.unheard "Connection terminated unexpectedly") else none)
      ⟨1, none, none⟩ 200 ⟨[], [], [100]⟩
    s.errors = ["[partitions] maintenance pass failed: Connection terminated unexpectedly"] ∧
      s.committed.partitions = [200, 201] := by
  decide +kernel

end PartitionMaintainer

end Provisioning
