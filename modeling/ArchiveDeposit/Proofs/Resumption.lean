import ArchiveDeposit.Proofs.Operation

/-!
# Driving that is stopped and resumed

Driving stops after a given number of ticks, and what was saved last can be driven on.  Nothing is
lost by this, because driving carries nothing from tick to tick but the observation, and because an
observation is saved whenever a tick moves anything: where driving stops at its limit, every tick
has moved something, so what is saved is the observation as it stands.

Driving in memory is never refused.  The store does not fail, and the simulated jobs ask only for
what well-formed files may do.

**Results.**
* `driveFrom_add`: a limit may be split in two.
* `driveFrom_kept`: what driving leaves in the repository.
* `drive_resumes`: what is driven on ends as if it had not been stopped.
-/

namespace ArchiveDeposit

section Resumption

/-- The report of driving, with the ticks and transitions that were made before. -/
def DriveReport.after (report : DriveReport) (ticks transitions : Nat) : DriveReport :=
  ⟨report.outcome, ticks + report.ticks, transitions + report.transitions, report.stage⟩

theorem DriveReport.after_zero (report : DriveReport) : report.after 0 0 = report := by
  rw [DriveReport.after, Nat.zero_add, Nat.zero_add]

section Limit

variable {Store Fault : Type} [ObservationStore Store Fault] {signals : Signals} {jobs : Bool}
  {clock : Nat → Timestamp}

theorem settled?_ne_tickLimit (o : Observation) (moved : List Transition) :
    settled? o moved ≠ some .tickLimit := by
  unfold settled?
  split_ifs <;> simp

/-- Driving with a larger limit goes on where driving with a smaller one stopped at it, and is the
same where driving ended before. -/
theorem driveFrom_add (n m : Nat) :
    ∀ {ticks transitions : Nat} {store store' : Store} {o o' : Observation}
      {report : DriveReport},
      driveFrom signals jobs clock ticks transitions n store o = (store', o', .ok report) →
        driveFrom signals jobs clock ticks transitions (n + m) store o =
          if report.outcome = .tickLimit then
            driveFrom signals jobs clock report.ticks report.transitions m store' o'
          else (store', o', .ok report) := by
  induction n with
  | zero =>
      intro ticks transitions store store' o o' report hdrive
      rw [driveFrom] at hdrive
      cases hdrive
      rw [if_pos rfl, Nat.zero_add]
  | succ n ih =>
      intro ticks transitions store store' o o' report hdrive
      rw [Nat.add_right_comm]
      rw [driveFrom] at hdrive ⊢
      split at hdrive
      · cases hdrive
      · dsimp only at hdrive ⊢
        split at hdrive
        · cases hdrive
        · split at hdrive
          · next outcome hsettled =>
              cases hdrive
              refine (if_neg fun hlimit : outcome = .tickLimit => ?_).symm
              exact settled?_ne_tickLimit _ _ (hlimit ▸ hsettled)
          · exact ih hdrive

end Limit

/-- What driving leaves in a repository: the observation as it is then, if any transition was made,
and all others as they were; if none was made, neither has changed. -/
structure Kept (repo : Repository) (o : Observation) (repo' : Repository) (o' : Observation)
    (made : Nat) : Prop where
  sbid : o'.sbid = o.sbid
  unmoved : made = 0 → repo' = repo ∧ o' = o
  saved : made ≠ 0 → repo'.load o.sbid = some o'
  others : ∀ sbid, sbid ≠ o.sbid → repo'.load sbid = repo.load sbid

namespace Kept

variable {repo repo' repo'' : Repository} {o o' o'' : Observation} {made more : Nat}

theorem refl (repo : Repository) (o : Observation) : Kept repo o repo o 0 :=
  ⟨rfl, fun _ => ⟨rfl, rfl⟩, fun h => absurd rfl h, fun _ _ => rfl⟩

theorem trans (h : Kept repo o repo' o' made) (h' : Kept repo' o' repo'' o'' more) :
    Kept repo o repo'' o'' (made + more) where
  sbid := h'.sbid.trans h.sbid
  unmoved hzero := by
    obtain ⟨hrepo, ho⟩ := h.unmoved (by omega)
    obtain ⟨hrepo', ho'⟩ := h'.unmoved (by omega)
    exact ⟨hrepo'.trans hrepo, ho'.trans ho⟩
  saved hmade := by
    by_cases hmore : more = 0
    · obtain ⟨hrepo, ho⟩ := h'.unmoved hmore
      rw [hrepo, ho]
      exact h.saved (by omega)
    · rw [← h.sbid]
      exact h'.saved hmore
  others sbid hne := (h'.others sbid (by rwa [h.sbid])).trans (h.others sbid hne)

/-- What one tick leaves. -/
theorem saveMoved (repo : Repository) {moved : List Transition} (hsbid : o'.sbid = o.sbid)
    (hsame : moved = [] → o' = o) :
    ∃ repo', ArchiveDeposit.saveMoved repo o' moved = (repo', .ok ()) ∧
      Kept repo o repo' o' moved.length := by
  unfold ArchiveDeposit.saveMoved
  cases moved with
  | nil =>
      rw [hsame rfl]
      exact ⟨repo, rfl, Kept.refl repo o⟩
  | cons first rest =>
      refine ⟨repo.save o', rfl, hsbid, fun hzero => (nomatch hzero), fun _ => ?_,
        fun sbid hne => ?_⟩
      · rw [Repository.load_save, if_pos hsbid]
      · rw [Repository.load_save, if_neg fun heq => hne (heq.symm.trans hsbid)]

end Kept

/-- Driving a well-formed observation with a repository is never refused.  What it leaves, and what
it reports besides the ticks and transitions before it, does not depend on these; and if it stops
at a limit, something has moved. -/
theorem driveFrom_kept (signals : Signals) (jobs : Bool) (now : Timestamp) (n : Nat) :
    ∀ {o : Observation} (repo : Repository), o.WellFormed →
      ∃ (repo' : Repository) (o' : Observation) (report : DriveReport),
        (∀ ticks transitions, driveFrom signals jobs (fun _ => now) ticks transitions n repo o =
          (repo', o', .ok (report.after ticks transitions))) ∧
        o'.WellFormed ∧ Kept repo o repo' o' report.transitions ∧
        (report.outcome = .tickLimit → n ≠ 0 → report.transitions ≠ 0) := by
  induction n with
  | zero =>
      intro o repo h
      exact ⟨repo, o, ⟨.tickLimit, 0, 0, o.stage⟩, fun _ _ => rfl, h, Kept.refl repo o,
        fun _ hzero => absurd rfl hzero⟩
  | succ n ih =>
      intro o repo h
      obtain ⟨after, moved, htick, hafter, hsbid, hsame⟩ := h.tick_spec signals jobs now
      obtain ⟨saved, hsave, hkept⟩ := Kept.saveMoved repo hsbid hsame
      cases hsettled : settled? after moved with
      | some outcome =>
          refine ⟨saved, after, ⟨outcome, 1, moved.length, after.stage⟩,
            fun ticks transitions => ?_, hafter, hkept, fun hlimit => ?_⟩
          · rw [driveFrom, htick]
            simp only [hsave, hsettled]
            rfl
          · exact absurd (hlimit ▸ hsettled) (settled?_ne_tickLimit after moved)
      | none =>
          obtain ⟨repo', o', report, hrest, hwf, hkeptRest, _⟩ := ih saved hafter
          have hmoved : moved.length ≠ 0 := by
            intro hzero
            rw [List.eq_nil_of_length_eq_zero hzero] at hsettled
            unfold settled? at hsettled
            split_ifs at hsettled
            contradiction
          refine ⟨repo', o', ⟨report.outcome, 1 + report.ticks, moved.length + report.transitions,
            report.stage⟩, fun ticks transitions => ?_, hwf, hkept.trans hkeptRest, fun _ _ => ?_⟩
          · rw [driveFrom, htick]
            simp only [hsave, hsettled, hrest, DriveReport.after, Nat.add_assoc]
          · exact Nat.ne_of_gt (Nat.add_pos_left (Nat.pos_of_ne_zero hmoved) _)

/-- In every state of every run: driving in memory is never refused; it leaves the observation, as
it is then, in the repository if anything moved, and everything else as it was.  Driven on from what
was saved when driving stopped at a limit, it ends as if there had been one limit, the sum of the
two; and driving that ended before its limit ends the same under a larger one. -/
theorem drive_resumes {allowed : Observation → Operation → Prop} {o : Observation}
    (h : Observation.Reachable allowed o) (repo : Repository) (signals : Signals) (jobs : Bool)
    (now : Timestamp) {n : Nat} (hn : 1 ≤ n) (m : Nat) :
    ∃ (repo' : Repository) (o' : Observation) (report : DriveReport),
      drive repo o signals jobs n (fun _ => now) = (repo', o', .ok report) ∧
        (report.transitions ≠ 0 → repo'.load o.sbid = some o') ∧
        (∀ sbid, sbid ≠ o.sbid → repo'.load sbid = repo.load sbid) ∧
        (report.transitions = 0 → repo' = repo) ∧
        (report.outcome = .tickLimit →
          repo'.load o.sbid = some o' ∧
            ∃ (repo'' : Repository) (o'' : Observation) (rest : DriveReport),
              drive repo' o' signals jobs m (fun _ => now) = (repo'', o'', .ok rest) ∧
                drive repo o signals jobs (n + m) (fun _ => now) =
                  (repo'', o'', .ok (rest.after report.ticks report.transitions))) ∧
        (report.outcome ≠ .tickLimit →
          drive repo o signals jobs (n + m) (fun _ => now) = (repo', o', .ok report)) := by
  obtain ⟨repo', o', report, hdrive, hwf, hkept, hmoved⟩ :=
    driveFrom_kept signals jobs now n repo h.sound.wellFormed
  have hfirst : drive repo o signals jobs n (fun _ => now) = (repo', o', .ok report) := by
    rw [drive, hdrive, DriveReport.after_zero]
  have hmore := driveFrom_add n m hfirst
  refine ⟨repo', o', report, hfirst, hkept.saved, hkept.others, fun hzero =>
    (hkept.unmoved hzero).1, fun hlimit => ?_, fun hended => hmore.trans (if_neg hended)⟩
  have hsaved := hkept.saved (hmoved hlimit (Nat.ne_of_gt hn))
  obtain ⟨repo'', o'', rest, hrest, _⟩ := driveFrom_kept signals jobs now m repo' hwf
  refine ⟨hsaved, repo'', o'', rest, ?_, ?_⟩
  · rw [drive, hrest, DriveReport.after_zero]
  · rw [if_pos hlimit, hrest] at hmore
    exact hmore

/-- A cube and a packed spectrum, stopped after three ticks and driven on to their deposit, with
another observation in the repository. -/
theorem drive_resumes_after_three_ticks :
    ∃ (o : Observation) (now : Timestamp) (repo' repo'' : Repository) (saved o'' : Observation)
      (report rest : DriveReport),
      Observation.Reachable (fun _ _ => True) o ∧
        drive (Ascending.empty.insert (Observation.fresh ⟨2⟩) : Repository) o Signals.autoComplete
          true 3 (fun _ => now) = (repo', saved, .ok report) ∧
        report.outcome = .tickLimit ∧ rest.outcome = .deposited ∧
        repo'.load ⟨1⟩ = some saved ∧ repo'.load ⟨2⟩ = some (Observation.fresh ⟨2⟩) ∧
        drive repo' saved Signals.autoComplete true 13 (fun _ => now) = (repo'', o'', .ok rest) ∧
        drive (Ascending.empty.insert (Observation.fresh ⟨2⟩) : Repository) o Signals.autoComplete
          true (3 + 13) (fun _ => now) =
            (repo'', o'', .ok (rest.after report.ticks report.transitions)) := by
  let now := Timestamp.ofUnixSeconds 0
  let o := Observation.performEach now (Observation.fresh ⟨1⟩)
    [.add .imageCube "i", .add .encapsulationFile "e", .addEncapsulated .spectrum "s" ⟨1⟩]
  let repo : Repository := Ascending.empty.insert (Observation.fresh ⟨2⟩)
  have hrun : Observation.Reachable (fun _ _ => True) o :=
    (Observation.Reachable.new (Observation.new_standard ⟨1⟩)).performEach
      ⟨trivial, trivial, trivial, trivial⟩
  have hstopped : (drive repo o Signals.autoComplete true 3 fun _ => now).2.2.toOption.map
      DriveReport.outcome = some .tickLimit := by
    decide +kernel
  have hended : (drive repo o Signals.autoComplete true (3 + 13) fun _ => now).2.2.toOption.map
      DriveReport.outcome = some .deposited := by
    decide +kernel
  obtain ⟨repo', o', report, hdrive, _, hothers, _, hresumed, _⟩ :=
    drive_resumes hrun repo Signals.autoComplete true now (n := 3) (by decide) 13
  rw [hdrive] at hstopped
  have hlimit : report.outcome = .tickLimit := Option.some.inj hstopped
  obtain ⟨hsaved, repo'', o'', rest, hrest, hwhole⟩ := hresumed hlimit
  rw [hwhole] at hended
  exact ⟨o, now, repo', repo'', o', o'', report, rest, hrun, hdrive, hlimit,
    Option.some.inj hended, hsaved, hothers ⟨2⟩ (by decide), hrest, hwhole⟩

end Resumption

end ArchiveDeposit
