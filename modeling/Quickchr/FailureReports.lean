import Quickchr.Lib.Newest
import Quickchr.Lib.Text
import Quickchr.Lib.Transition

/-!
# Reports of failures

Every failure that is captured leaves a report in one directory, which holds the reports of all machines and of both
kinds, and whatever else is put there. The newest reports are kept.
-/
namespace Quickchr.FailureReports

/-- A boot that did not succeed, or a request that failed after one. -/
inductive Kind
  | boot
  | postReadiness
  deriving DecidableEq

def Kind.start : Kind → String
  | boot => "boot-failure-"
  | postReadiness => "post-readiness-failure-"

def FAILURE_REPORT_PREFIXES : List String := [Kind.boot.start, Kind.postReadiness.start]

def MAX_BOOT_FAILURE_REPORTS : ℕ := 20

def isReport (name : String) : Bool :=
  (FAILURE_REPORT_PREFIXES.any fun p => Text.startsWith name p) && ".json".toList.isSuffixOf name.toList

def isDateChar (c : Char) : Bool := c.isDigit || c = '-'

/-- `\d{4}-\d{2}-\d{2}T[\d-]+Z`. -/
def isStamp (s : List Char) : Bool :=
  match s with
  | y :: y' :: y'' :: y''' :: '-' :: m :: m' :: '-' :: d :: d' :: 'T' :: time =>
      [y, y', y'', y''', m, m', d, d'].all Char.isDigit && (time.getLast? = some 'Z') && !time.dropLast.isEmpty &&
        time.dropLast.all isDateChar
  | _ => false

/-- The first place of a name from which on it is a stamp and `.json`. -/
def stampWithin : List Char → Option (List Char)
  | [] => none
  | c :: rest =>
      let front := (c :: rest).take ((c :: rest).length - ".json".toList.length)
      if ".json".toList.isSuffixOf (c :: rest) && isStamp front then some front else stampWithin rest

/-- `REPORT_STAMP.exec(name)?.[1] ?? ""`. -/
def reportStamp (name : String) : String := String.ofList ((stampWithin name.toList).getD [])

section Prune

-- `a.localeCompare(b) <= 0`.
variable (localeLe : String → String → Bool)

def notNewer (a b : String) : Bool := localeLe (reportStamp a) (reportStamp b)

/-- What is removed of the files that are listed. -/
def pruneBootFailureReports (listing : List String) (keep : ℕ) : List String :=
  Newest.stale (notNewer localeLe) keep (listing.filter isReport)

end Prune

/-- The first millisecond of a time that is written with a longer year. -/
def YEAR_10000 : ℕ := 253402300800000

/-- The times of a clock as names show them, and how the language orders these. -/
structure Stamps where
  stamp : ℕ → String
  localeLe : String → String → Bool
  shaped : ∀ time < YEAR_10000, isStamp (stamp time).toList = true
  total : Newest.Total localeLe
  chronological : ∀ time < YEAR_10000, ∀ time' < YEAR_10000,
    (localeLe (stamp time) (stamp time') = true ↔ time ≤ time')

instance : Nonempty Stamps := by
  refine ⟨⟨fun time => String.ofList ("0000-00-00T".toList ++ List.replicate (time + 1) '0' ++ ['Z']),
    fun a b => decide (a.toList.length ≤ b.toList.length), fun time _ => ?_, ⟨fun a b c h h' => ?_, fun a b => ?_⟩,
    fun time _ time' _ => ?_⟩⟩
  · have last : ('0' :: (List.replicate time '0' ++ ['Z'])).dropLast = '0' :: List.replicate time '0' := by
      rw [← List.cons_append, List.dropLast_concat]
    have digit : ('0').isDigit = true := rfl
    simp [isStamp, isDateChar, List.replicate_succ, last, digit, List.getLast?_cons, List.getLast?_append]
  · exact decide_eq_true ((of_decide_eq_true h).trans (of_decide_eq_true h'))
  · rw [← Bool.decide_or]
    exact decide_eq_true (Nat.le_total _ _)
  · simp

def Stamps.file (stamps : Stamps) (kind : Kind) (name : String) (time : ℕ) : String :=
  kind.start ++ name ++ "-" ++ stamps.stamp time ++ ".json"

structure World where
  dir : List String
  /-- The reports that were ever written, with their times. -/
  written : List (ℕ × String)

/-- What becomes of a capture's report. -/
inductive Fate
  /-- No file is made. -/
  | unwritten
  /-- It is there, whole or cut off, and the directory is not pruned. -/
  | unpruned
  /-- The directory is pruned, but for the files that cannot be removed. -/
  | pruned (stuck : List String)

inductive Event
  /-- A capture, and in which order the directory is listed to it. -/
  | capture (kind : Kind) (name : String) (time : ℕ) (listing : List String) (fate : Fate)
  /-- Files that are no reports come and go. -/
  | other (dir : List String)

def reports (dir : List String) : List String := dir.filter isReport

def put (dir : List String) (file : String) : List String := if file ∈ dir then dir else dir ++ [file]

def next (stamps : Stamps) (w : World) : Event → Option World
  | .capture kind name time listing fate =>
      let file := stamps.file kind name time
      let dir := put w.dir file
      let stale := pruneBootFailureReports stamps.localeLe listing MAX_BOOT_FAILURE_REPORTS
      if time < YEAR_10000 ∧ listing.Perm dir then
        match fate with
        | .unwritten => some w
        | .unpruned => some { dir, written := (time, file) :: w.written }
        | .pruned stuck => some
            { dir := dir.filter fun f => f ∉ stale ∨ f ∈ stuck, written := (time, file) :: w.written }
      else none
  | .other dir => if dir.Nodup ∧ reports dir = reports w.dir then some { w with dir } else none

def system (stamps : Stamps) : Transition.System World Event where
  Initial w := w.dir.Nodup ∧ reports w.dir = [] ∧ w.written = []
  next := next stamps

theorem isStamp_eq_true {s : List Char} (h : isStamp s = true) : ∃ date time, s = date ++ 'T' :: time ++ ['Z'] ∧
    date.length = 10 ∧ (∀ c ∈ date, isDateChar c = true) ∧ ∀ c ∈ time, isDateChar c = true := by
  unfold isStamp at h
  split at h
  · rename_i y y' y'' y''' m m' d d' time
    rw [Bool.and_eq_true, Bool.and_eq_true, Bool.and_eq_true, decide_eq_true_iff] at h
    obtain ⟨⟨⟨digits, last⟩, -⟩, inner⟩ := h
    refine ⟨[y, y', y'', y''', '-', m, m', '-', d, d'], time.dropLast, ?_, rfl, ?_, List.all_eq_true.mp inner⟩
    · have whole := List.dropLast_append_getLast? 'Z' last
      simp [whole]
    · simp only [List.all_cons, List.all_nil, Bool.and_eq_true] at digits
      simp [isDateChar, digits]
  · cases h

theorem T_not_date {c : Char} (h : isDateChar c = true) : c ≠ 'T' := by
  rintro rfl
  exact absurd h (by decide)

theorem stamp_unique {front s : List Char} (inner : isStamp s = true) (outer : isStamp (front ++ s) = true) :
    front = [] := by
  obtain ⟨date, time, whole, ten, dates, -⟩ := isStamp_eq_true inner
  obtain ⟨date', time', whole', ten', dates', insideTimes⟩ := isStamp_eq_true outer
  by_contra some_
  have position := congrArg (fun l => l[front.length + 10]?) whole'
  have left : (front ++ s)[front.length + 10]? = some 'T' := by
    rw [whole, List.getElem?_append_right (Nat.le_add_right _ _), Nat.add_sub_cancel_left, List.append_assoc,
      List.getElem?_append_right (by omega), ten]
    rfl
  have right : (date' ++ 'T' :: time' ++ ['Z'])[front.length + 10]? = (time' ++ ['Z'])[front.length - 1]? := by
    have filled := List.length_pos_of_ne_nil some_
    rw [List.append_assoc, List.getElem?_append_right (by omega), ten', Nat.add_sub_cancel]
    obtain ⟨n, is⟩ := Nat.exists_eq_add_of_lt filled
    rw [is, Nat.zero_add, Nat.add_sub_cancel]
    rfl
  rw [left, right] at position
  obtain before | last := List.mem_append.mp (List.mem_of_getElem? position.symm)
  · exact T_not_date (insideTimes 'T' before) rfl
  · exact absurd (List.mem_singleton.mp last) (by decide)

theorem stampWithin_append {s : List Char} (stamp : isStamp s = true) (front : List Char) :
    stampWithin (front ++ s ++ ".json".toList) = some s := by
  have ends (l : List Char) : ".json".toList.isSuffixOf (l ++ ".json".toList) = true :=
    List.isSuffixOf_iff_suffix.mpr (List.suffix_append _ _)
  have cut (l : List Char) : (l ++ ".json".toList).take ((l ++ ".json".toList).length - ".json".toList.length) = l := by
    rw [List.length_append, Nat.add_sub_cancel, List.take_left]
  induction front with
  | nil =>
      obtain ⟨c, rest, is⟩ := List.exists_cons_of_ne_nil (show [] ++ s ++ ".json".toList ≠ [] by simp)
      rw [is, stampWithin, ← is, cut, ends, List.nil_append, stamp]
      rfl
  | cons c front ih =>
      have other : isStamp (c :: front ++ s) = false := by
        by_contra outer
        rw [Bool.not_eq_false] at outer
        exact absurd (stamp_unique stamp outer) (List.cons_ne_nil c front)
      rw [List.cons_append, List.cons_append, stampWithin, ← List.cons_append, ← List.cons_append, cut, other, ih,
        Bool.and_false]
      rfl

theorem toList_file (stamps : Stamps) (kind : Kind) (name : String) (time : ℕ) :
    (stamps.file kind name time).toList =
      (kind.start ++ name ++ "-").toList ++ (stamps.stamp time).toList ++ ".json".toList := by
  simp [Stamps.file]

/-- What stands in the name of a report is its time, whatever the machine is called. -/
theorem reportStamp_file (stamps : Stamps) (kind : Kind) (name : String) {time : ℕ} (early : time < YEAR_10000) :
    reportStamp (stamps.file kind name time) = stamps.stamp time := by
  rw [reportStamp, toList_file, stampWithin_append (stamps.shaped time early), Option.getD_some, String.ofList_toList]

theorem isReport_file (stamps : Stamps) (kind : Kind) (name : String) (time : ℕ) :
    isReport (stamps.file kind name time) = true := by
  have starts : Text.startsWith (stamps.file kind name time) kind.start = true := by
    simp [Text.startsWith, Stamps.file]
  have ends : ".json".toList.isSuffixOf (stamps.file kind name time).toList = true := by
    rw [List.isSuffixOf_iff_suffix, toList_file]
    exact List.suffix_append _ _
  have known : kind.start ∈ FAILURE_REPORT_PREFIXES := by
    cases kind <;> simp [FAILURE_REPORT_PREFIXES]
  rw [isReport, ends, Bool.and_true, List.any_eq_true]
  exact ⟨kind.start, known, starts⟩

section Runs

variable {stamps : Stamps} {w t : World}

theorem total_notNewer (stamps : Stamps) : Newest.Total (notNewer stamps.localeLe) where
  trans _ _ _ := stamps.total.trans _ _ _
  total _ _ := stamps.total.total _ _

/-- Every report there was written, and the newest of those written are there. -/
structure Inv (stamps : Stamps) (w : World) : Prop where
  nodup : w.dir.Nodup
  named : ∀ e ∈ w.written, e.1 < YEAR_10000 ∧ ∃ kind name, e.2 = stamps.file kind name e.1
  known : ∀ file ∈ reports w.dir, file ∈ w.written.map Prod.snd
  covers : Newest.Covers (notNewer stamps.localeLe) MAX_BOOT_FAILURE_REPORTS (reports w.dir) (w.written.map Prod.snd)

theorem reports_filter (p : String → Bool) (dir : List String) : reports (dir.filter p) = (reports dir).filter p := by
  rw [reports, reports, List.filter_filter, List.filter_filter]
  exact List.filter_congr fun file _ => Bool.and_comm _ _

/-- What is kept of the reports that are listed. -/
abbrev newest (stamps : Stamps) (listing : List String) : List String :=
  Newest.kept (notNewer stamps.localeLe) MAX_BOOT_FAILURE_REPORTS (reports listing)

abbrev stale (stamps : Stamps) (listing : List String) : List String :=
  pruneBootFailureReports stamps.localeLe listing MAX_BOOT_FAILURE_REPORTS

theorem newest_fresh {listing : List String} (nodup : listing.Nodup) {file : String} (new : file ∈ newest stamps listing) :
    file ∉ stale stamps listing := by
  have parts := @Newest.kept_append_stale_perm _ (notNewer stamps.localeLe) MAX_BOOT_FAILURE_REPORTS (reports listing)
  have apart := parts.nodup_iff.mpr (nodup.filter isReport)
  rw [List.nodup_append] at apart
  exact fun old => apart.2.2 file new file old rfl

theorem reports_pruned {dir listing : List String} (nodup : dir.Nodup) (perm : listing.Perm dir) :
    (reports (dir.filter (· ∉ stale stamps listing))).Perm (newest stamps listing) := by
  have parts := @Newest.kept_append_stale_perm _ (notNewer stamps.localeLe) MAX_BOOT_FAILURE_REPORTS (reports listing)
  rw [reports_filter]
  refine (((perm.filter isReport).symm.trans parts.symm).filter _).trans ?_
  rw [List.filter_append]
  have left : (newest stamps listing).filter (· ∉ stale stamps listing) = newest stamps listing :=
    List.filter_eq_self.mpr fun file new => decide_eq_true (newest_fresh (perm.nodup_iff.mpr nodup) new)
  have right : (Newest.stale (notNewer stamps.localeLe) MAX_BOOT_FAILURE_REPORTS (reports listing)).filter
      (· ∉ stale stamps listing) = [] :=
    List.filter_eq_nil_iff.mpr fun file old kept => of_decide_eq_true kept old
  rw [left, right, List.append_nil]

theorem nodup_put {dir : List String} (nodup : dir.Nodup) (file : String) : (put dir file).Nodup := by
  rw [put]
  split
  · exact nodup
  · rename_i fresh
    exact List.nodup_append.mpr ⟨nodup, List.nodup_singleton file, fun a old b last same =>
      fresh (List.mem_singleton.mp last ▸ same ▸ old)⟩

theorem mem_reports_put {dir : List String} {file other : String} (member : other ∈ reports (put dir file)) :
    other = file ∨ other ∈ reports dir := by
  rw [put] at member
  split at member
  · exact .inr member
  · rw [reports, List.filter_append] at member
    obtain old | last := List.mem_append.mp member
    · exact .inr old
    · exact .inl (List.mem_singleton.mp (List.mem_of_mem_filter last))

theorem Inv.write (h : Inv stamps w) (kind : Kind) (name : String) {time : ℕ} (early : time < YEAR_10000) :
    Inv stamps
      { dir := put w.dir (stamps.file kind name time)
        written := (time, stamps.file kind name time) :: w.written } := by
  have report := isReport_file stamps kind name time
  refine ⟨nodup_put h.nodup _, fun e member => ?_, fun other member => ?_, ?_⟩
  · obtain rfl | before := List.mem_cons.mp member
    · exact ⟨early, kind, name, rfl⟩
    · exact h.named e before
  · obtain rfl | old := mem_reports_put member
    · exact List.mem_cons_self
    · exact List.mem_cons_of_mem _ (h.known other old)
  · have covers := h.covers.add (stamps.file kind name time)
    by_cases old : stamps.file kind name time ∈ w.dir
    · -- the report is written again
      intro a member
      rw [put, if_pos old]
      obtain rfl | before := List.mem_cons.mp member
      · exact .inl (List.mem_filter.mpr ⟨old, report⟩)
      · exact h.covers a before
    · refine covers.perm ?_
      rw [put, if_neg old, reports, List.filter_append, List.filter_singleton, report]
      exact List.perm_append_comm

theorem Inv.prune (h : Inv stamps w) {listing : List String} (perm : listing.Perm w.dir) (stuck : List String) :
    Inv stamps { w with dir := w.dir.filter fun f => f ∉ stale stamps listing ∨ f ∈ stuck } := by
  have same := perm.filter isReport
  have nodup : listing.Nodup := perm.nodup_iff.mpr h.nodup
  refine ⟨h.nodup.filter _, h.named, fun other member => ?_, ?_⟩
  · rw [reports_filter] at member
    exact h.known other (List.mem_of_mem_filter member)
  · rw [reports_filter]
    refine (h.covers.perm same).prune (total_notNewer stamps) (nodup.filter isReport) ?_ fun b inside => ?_
    · refine List.subperm_of_subset ?_ fun file new => List.mem_filter.mpr ⟨?_, ?_⟩
      · have parts := @Newest.kept_append_stale_perm _ (notNewer stamps.localeLe) MAX_BOOT_FAILURE_REPORTS (reports listing)
        exact (List.nodup_append.mp (parts.nodup_iff.mpr (nodup.filter isReport))).1
      · exact same.mem_iff.mp (Newest.kept_append_stale_perm.mem_iff.mp (List.mem_append_left _ new))
      · exact decide_eq_true (.inl (newest_fresh nodup new))
    · by_cases old : b ∈ stale stamps listing
      · exact .inr old
      · exact .inl (List.mem_filter.mpr ⟨same.mem_iff.mp inside, decide_eq_true (.inl old)⟩)

theorem Inv.next (h : Inv stamps w) {event : Event} (step : next stamps w event = some t) : Inv stamps t := by
  cases event with
  | capture kind name time listing fate =>
      simp only [FailureReports.next] at step
      split at step
      · rename_i enabled
        have written := h.write kind name enabled.1
        cases fate with
        | unwritten => cases step; exact h
        | unpruned => cases step; exact written
        | pruned stuck => cases step; exact written.prune enabled.2 stuck
      · cases step
  | other dir =>
      simp only [FailureReports.next] at step
      split at step
      · rename_i same
        cases step
        refine ⟨same.1, h.named, ?_, ?_⟩
        · dsimp only
          rw [same.2]
          exact h.known
        · dsimp only
          rw [same.2]
          exact h.covers
      · cases step

theorem inv_of_reachable (h : (system stamps).Reachable w) : Inv stamps w := by
  refine h.invariant ?_ fun s e t _ inv _ step => inv.next step
  rintro w ⟨nodup, none, unwritten⟩
  refine ⟨nodup, by simp [unwritten], by simp [none], ?_⟩
  rw [unwritten]
  exact fun a member => by cases member

theorem Inv.order (h : Inv stamps w) {e e' : ℕ × String} (member : e ∈ w.written) (member' : e' ∈ w.written) :
    notNewer stamps.localeLe e.2 e'.2 = true ↔ e.1 ≤ e'.1 := by
  obtain ⟨early, kind, name, is⟩ := h.named e member
  obtain ⟨early', kind', name', is'⟩ := h.named e' member'
  rw [notNewer, is, is', reportStamp_file stamps kind name early, reportStamp_file stamps kind' name' early',
    stamps.chronological _ early _ early']

theorem Inv.isReport (h : Inv stamps w) {e : ℕ × String} (member : e ∈ w.written) : isReport e.2 = true := by
  obtain ⟨-, kind, name, is⟩ := h.named e member
  exact is ▸ isReport_file stamps kind name e.1

end Runs

structure History (stamps : Stamps) extends World where
  reachable : (system stamps).Reachable toWorld

/-- The reports there that are no older than this time. -/
def World.since (w : World) (time : ℕ) : List String :=
  (reports w.dir).filter fun file => ∃ e ∈ w.written, e.2 = file ∧ time ≤ e.1

/-- The directory holds no more reports than are kept, and none that was removed is newer than one there. -/
structure Kept (w : World) : Prop where
  few : (reports w.dir).length ≤ MAX_BOOT_FAILURE_REPORTS
  newest : ∀ e ∈ w.written, e.2 ∉ w.dir → ∀ e' ∈ w.written, e'.2 ∈ w.dir → e.1 ≤ e'.1

theorem Inv.kept {stamps : Stamps} {w : World} (h : Inv stamps w)
    (few : (reports w.dir).length ≤ MAX_BOOT_FAILURE_REPORTS) : Kept w := by
  refine ⟨few, fun e member gone e' member' there => ?_⟩
  have many := (h.covers e.2 (List.mem_map_of_mem member)).resolve_left fun still => gone (List.mem_of_mem_filter still)
  have every := List.countP_eq_length.mp (le_antisymm List.countP_le_length (few.trans many))
  exact (h.order member member').mp (every e'.2 (List.mem_filter.mpr ⟨there, h.isReport member'⟩))

/-- However many failures are captured, and whatever the clock does and fails: of the reports that were written the
newest are there. A capture removes no file that is not a report, and one that can remove what is stale keeps no
more than the newest. -/
theorem keepsNewest {stamps : Stamps} (history : History stamps) :
    (∀ e ∈ history.written, e.2 ∈ history.dir ∨ MAX_BOOT_FAILURE_REPORTS ≤ (history.since e.1).length) ∧
      ∀ kind name time listing fate t, next stamps history.toWorld (.capture kind name time listing fate) = some t →
        t.dir.filter (!isReport ·) = history.dir.filter (!isReport ·) ∧ (fate = .pruned [] → Kept t) := by
  have inv := inv_of_reachable history.reachable
  refine ⟨fun e member => ?_, fun kind name time listing fate t step => ?_⟩
  · refine (inv.covers e.2 (List.mem_map_of_mem member)).imp List.mem_of_mem_filter fun many => many.trans ?_
    rw [World.since, ← List.countP_eq_length_filter]
    refine List.countP_mono_left fun file there newer => ?_
    obtain ⟨e', member', rfl⟩ := List.mem_map.mp (inv.known file there)
    exact decide_eq_true ⟨e', member', rfl, (inv.order member member').mp newer⟩
  · have inv' := inv.next step
    have report := isReport_file stamps kind name time
    have same : (put history.dir (stamps.file kind name time)).filter (!isReport ·) =
        history.dir.filter (!isReport ·) := by
      rw [put]
      split
      · rfl
      · rw [List.filter_append, List.filter_singleton, report]
        exact List.append_nil _
    simp only [next] at step
    split at step
    · rename_i enabled
      cases fate with
      | unwritten =>
          cases step
          exact ⟨rfl, nofun⟩
      | unpruned =>
          cases step
          exact ⟨same, nofun⟩
      | pruned stuck =>
          cases step
          refine ⟨?_, fun all => inv'.kept ?_⟩
          · rw [List.filter_filter, ← same]
            refine List.filter_congr fun file _ => ?_
            cases is : isReport file with
            | true => rfl
            | false =>
                have fresh : file ∉ stale stamps listing := fun old => by
                  have one := List.of_mem_filter
                    (Newest.kept_append_stale_perm.mem_iff.mp (List.mem_append_right _ old))
                  rw [is] at one
                  cases one
                simp [fresh]
          · cases all
            have left := (@reports_pruned stamps _ _ (nodup_put inv.nodup _) enabled.2).length_eq
            rw [Newest.length_kept] at left
            simpa using left.trans_le (min_le_left _ _)
    · cases step

/-- The first report of all. -/
theorem keepsNewest_first : ∃ (stamps : Stamps) (history : History stamps) (t : World), next stamps history.toWorld
    (.capture .boot "lab" 0 [stamps.file .boot "lab" 0] (.pruned [])) = some t ∧ t.written ≠ [] ∧ Kept t := by
  obtain ⟨stamps⟩ : Nonempty Stamps := inferInstance
  let history : History stamps := ⟨⟨[], []⟩, .initial ⟨List.nodup_nil, rfl, rfl⟩⟩
  have step : ∃ t, next stamps history.toWorld
      (.capture .boot "lab" 0 [stamps.file .boot "lab" 0] (.pruned [])) = some t ∧ t.written ≠ [] := by
    unfold next
    dsimp only
    rw [if_pos ⟨by decide, .refl _⟩]
    exact ⟨_, rfl, List.cons_ne_nil _ _⟩
  obtain ⟨t, step, some_⟩ := step
  exact ⟨stamps, history, t, step, some_, ((keepsNewest history).2 _ _ _ _ _ _ step).2 rfl⟩

end Quickchr.FailureReports
