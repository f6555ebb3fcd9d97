/-
InferBridge/OutputTransactionSafety.lean

Crash safety of the publication of a model directory.

The invariant `Safe` says of a disk that, if the run started with a ready
model at the final path, then the final path holds a genuine one (the
original model, or one that passed the validation in staging), or the final
path is not ready and the backup holds a genuine one; and that everything
ever renamed from staging to the final path had passed.  The second half of
the disjunction is what recovery acts on: it restores the backup when the
final path is not ready, and deletes it when it is.  A recursive delete
that is cut short must not turn a broken directory into a ready one, and it
does not (`Ready.of_eraseIdx`).

Each function gets one triple over `Safe`; `triple_stagedModelOutput`
assembles them, and `runs_invariant` chains transactions.

Main results: `stagedModelOutput_crash_safe` for whole runs, and
`recoverStaleBackup_spec` for a recovery from an arbitrary disk.
-/
import InferBridge.OutputTransaction

namespace InferBridge

open Crash

section Operations

variable {J I P : Disk → Prop}

/-! ### Triples of the operations -/

theorem triple_elsewhere (hJ : ∀ d, P d → J d) :
    Triple J P (perform elsewhere : Fs Unit) (fun _ => P) (fun _ => P) := by
  apply triple_perform hJ
  intro k d hd
  cases k with
  | go choice => exact ⟨hJ d hd, hd⟩
  | fail e => exact hd

theorem triple_rejectReparsePoint (slot : Slot) (description : String) :
    Triple J P (rejectReparsePoint slot description)
      (fun _ d => P d ∧ (d.nodes slot).isLink = false) (fun _ => P) := by
  apply triple_read_bind
  intro d₀ hd
  split
  · apply triple_raise
    rintro d rfl
    exact hd
  · next hlink =>
    apply triple_pure
    rintro d rfl
    exact ⟨hd, by simpa using hlink⟩

/-- A delete, by an invariant that survives the removal of an entry and of what is left. -/
theorem triple_removePath (slot : Slot) (hJ : ∀ d, I d → J d)
    (hentry : ∀ d tree i, I d → d.nodes slot = .dir tree →
      I (d.set slot (.dir (tree.eraseIdx i))))
    (hgone : ∀ d, I d → I (d.set slot .absent)) :
    Triple J I (removePath slot) (fun _ d => I d ∧ d.nodes slot = .absent) (fun _ => I) := by
  apply triple_read_bind
  intro d₀ hd
  have hstart : ∀ d, d = d₀ → I d := by
    rintro d rfl
    exact hd
  rcases e : d₀.nodes slot with - | - | target | tree
  · apply triple_pure
    rintro d rfl
    exact ⟨hd, e⟩
  · -- a file
    refine triple_conseq (triple_perform (I := I) (Q := fun _ d => I d ∧ d.nodes slot = .absent)
      (E := fun _ => I) hJ ?_) hstart (fun _ _ h => h) (fun _ _ h => h)
    intro k d hd
    cases k with
    | go choice => exact ⟨hJ _ (hgone d hd), hgone d hd, by simp⟩
    | fail x => exact hd
  · -- a link is refused
    refine triple_conseq (triple_rejectReparsePoint (P := fun d => d = d₀) slot _)
      (fun _ h => h) ?_ (fun _ _ h => hstart _ h)
    rintro _ d ⟨rfl, hlink⟩
    simp [e, Node.isLink] at hlink
  · -- a directory
    refine triple_conseq (triple_perform (I := I) (Q := fun _ d => I d ∧ d.nodes slot = .absent)
      (E := fun _ => I) hJ ?_) hstart (fun _ _ h => h) (fun _ _ h => h)
    intro k d hd
    cases k with
    | fail x => exact hd
    | go choice =>
      rcases en : d.nodes slot with - | - | target | tree
      · simpa only [rmtreeStep, en] using hd
      · simpa only [rmtreeStep, en] using hd
      · simpa only [rmtreeStep, en] using hd
      · by_cases hempty : tree.entries = []
        · simp only [rmtreeStep, en, hempty, if_true]
          exact ⟨hJ _ (hgone d hd), hgone d hd, by simp⟩
        · simp only [rmtreeStep, en, hempty, if_false]
          exact hentry d tree _ hd en

/-- A rename with its retries: it happens once, or not at all. -/
theorem triple_replacePath {Q : Unit → Disk → Prop} (source destination : Slot)
    (hJ : ∀ d, P d → J d)
    (hmove : ∀ d, P d → d.nodes source ≠ .absent →
      J (d.rename source destination) ∧ Q () (d.rename source destination)) :
    Triple J P (replacePath source destination) Q (fun _ => P) := by
  have once : Triple J P (perform (osReplace source destination)) Q (fun _ => P) := by
    apply triple_perform hJ
    intro k d hd
    cases k with
    | fail e => exact hd
    | go choice =>
      by_cases hok : d.nodes source ≠ .absent ∧
          replaceable (d.nodes source) (d.nodes destination) = true
      · have hdone : osReplace source destination (.go choice) d =
            .done (d.rename source destination) () := if_pos hok
        rw [hdone]
        exact hmove d hd hok.1
      · have hfail : osReplace source destination (.go choice) d = .fail (.osError false) :=
          if_neg hok
        rw [hfail]
        exact hd
  unfold replacePath
  generalize replaceRetryDelays.length - 1 = retries
  induction retries with
  | zero => exact once
  | succ retries ih =>
    apply triple_catch once
    intro e
    split
    · exact ih
    · exact triple_raise fun _ h => h

theorem triple_validateSlot (reader : ArtifactReader) (slot : Slot) :
    Triple J P (validateSlot reader slot)
      (fun validation d => P d ∧ (validation.ready = true ↔
        ∃ t, (d.nodes slot).contents = some t ∧ Ready reader t)) (fun _ => P) := by
  apply triple_read_bind
  intro d₀ hd
  rcases e : validateOpenvinoModelDir reader true (d₀.nodes slot).contents with err | validation
  · apply triple_raise
    rintro d rfl
    exact hd
  · apply triple_pure
    rintro d rfl
    refine ⟨hd, ?_⟩
    rcases ec : (d.nodes slot).contents with - | t
    · rw [ec] at e
      cases e
      simp [notReady]
    · rw [ec] at e
      rw [← ready_iff e]
      simp

end Operations

/-! ### The invariant -/

variable (reader : ArtifactReader) (start : Option Tree)

/-- The original model of the run, or one that passed the validation in staging. -/
def Genuine (passed : List Tree) (t : Tree) : Prop :=
  Ready reader t ∧ (start = some t ∨ t ∈ passed)

def FinalGenuine (d : Disk) : Prop :=
  ∃ t, (d.nodes .final).contents = some t ∧ Genuine reader start d.passed t

def BackupGenuine (d : Disk) : Prop :=
  ∃ t, d.nodes .backup = .dir t ∧ Genuine reader start d.passed t

def FinalReady (d : Disk) : Prop :=
  ∃ t, (d.nodes .final).contents = some t ∧ Ready reader t

/-- Whatever was renamed from staging to the final path had passed the validation. -/
def PublishedPassed (d : Disk) : Prop :=
  ∀ node ∈ d.published, ∃ t ∈ d.passed, node = .dir t ∧ Ready reader t

/-- The invariant of a run that started with the model `start` at the final path, if any. -/
structure Safe (d : Disk) : Prop where
  held : start.isSome = true →
    FinalGenuine reader start d ∨ (¬ FinalReady reader d ∧ BackupGenuine reader start d)
  published : PublishedPassed reader d

/-- Between transactions: no backup, and the model at the final path. -/
structure Settled (d : Disk) : Prop where
  backup : d.nodes .backup = .absent
  final : start.isSome = true → FinalGenuine reader start d
  published : PublishedPassed reader d

/-- The model stands at the final path; the backup may hold anything. -/
structure Live (d : Disk) : Prop where
  final : start.isSome = true → FinalGenuine reader start d
  published : PublishedPassed reader d

/-- The model stands in the backup; the final path may hold anything that is not ready. -/
structure Aside (d : Disk) : Prop where
  final : start.isSome = true → ¬ FinalReady reader d
  backup : start.isSome = true → BackupGenuine reader start d
  published : PublishedPassed reader d

variable {reader start}

theorem Live.safe {d : Disk} (h : Live reader start d) : Safe reader start d :=
  ⟨fun hs => .inl (h.final hs), h.published⟩

theorem Aside.safe {d : Disk} (h : Aside reader start d) : Safe reader start d :=
  ⟨fun hs => .inr ⟨h.final hs, h.backup hs⟩, h.published⟩

theorem Settled.live {d : Disk} (h : Settled reader start d) : Live reader start d :=
  ⟨h.final, h.published⟩

theorem Settled.safe {d : Disk} (h : Settled reader start d) : Safe reader start d :=
  h.live.safe

/-! ### What the operations keep -/

theorem Live.set {d : Disk} (h : Live reader start d) {slot : Slot} (hslot : slot ≠ .final)
    (node : Node) : Live reader start (d.set slot node) := by
  refine ⟨fun hs => ?_, h.published⟩
  obtain ⟨t, ht, hgen⟩ := h.final hs
  refine ⟨t, ?_, hgen⟩
  rw [d.set_of_ne hslot.symm]
  exact ht

theorem Settled.set_staging {d : Disk} (h : Settled reader start d) (node : Node) :
    Settled reader start (d.set .staging node) := by
  have hlive := h.live.set (by decide : Slot.staging ≠ .final) node
  refine ⟨?_, hlive.final, hlive.published⟩
  rw [d.set_of_ne (by decide)]
  exact h.backup

theorem Safe.set_staging {d : Disk} (h : Safe reader start d) (node : Node) :
    Safe reader start (d.set .staging node) := by
  refine ⟨fun hs => ?_, h.published⟩
  have hfinal : (d.set .staging node).nodes .final = d.nodes .final := d.set_of_ne (by decide) node
  have hbackup : (d.set .staging node).nodes .backup = d.nodes .backup :=
    d.set_of_ne (by decide) node
  simpa only [FinalGenuine, FinalReady, BackupGenuine, hfinal, hbackup, Disk.set_passed]
    using h.held hs

/-- Setting the final path aside from the model: nothing ready may appear there. -/
theorem Aside.set_final {d : Disk} (h : Aside reader start d) {node : Node}
    (hnode : ∀ t, node.contents = some t → start.isSome = true → ¬ Ready reader t) :
    Aside reader start (d.set .final node) := by
  refine ⟨fun hs => ?_, fun hs => ?_, h.published⟩
  · rintro ⟨t, ht, hready⟩
    rw [d.set_self] at ht
    exact hnode t ht hs hready
  · obtain ⟨t, ht, hgen⟩ := h.backup hs
    refine ⟨t, ?_, hgen⟩
    rw [d.set_of_ne (by decide)]
    exact ht

/-- Deleting at the final path while the model is aside. -/
theorem triple_removeFinal {J : Disk → Prop} (hJ : ∀ d, Aside reader start d → J d) :
    Triple J (Aside reader start) (removePath .final)
      (fun _ d => Aside reader start d ∧ d.nodes .final = .absent)
      (fun _ => Aside reader start) := by
  apply triple_removePath .final hJ
  · intro d tree i h hdir
    apply h.set_final
    intro t ht hs hready
    cases ht
    exact h.final hs ⟨tree, by rw [hdir]; rfl, hready.of_eraseIdx⟩
  · intro d h
    apply h.set_final
    intro t ht
    cases ht

/-- Restoring the backup: the rename makes the final path genuine again. -/
theorem Aside.restore {d : Disk} (h : Aside reader start d) :
    Settled reader start (d.rename .backup .final) := by
  rw [d.rename_eq (by decide)]
  refine ⟨Disk.set_self _ _ _, fun hs => ?_, h.published⟩
  obtain ⟨t, ht, hgen⟩ := h.backup hs
  refine ⟨t, ?_, hgen⟩
  rw [Disk.set_of_ne _ (by decide), Disk.set_self, ht]
  rfl

/-- Deleting at the backup path while the model is live. -/
theorem triple_removeBackup {J : Disk → Prop} (hJ : ∀ d, Live reader start d → J d) :
    Triple J (Live reader start) (removePath .backup)
      (fun _ d => Live reader start d ∧ d.nodes .backup = .absent)
      (fun _ => Live reader start) := by
  apply triple_removePath .backup hJ
  · intro d tree i h _
    exact h.set (by decide) _
  · intro d h
    exact h.set (by decide) _

/-! ### Recovery -/

/-- **Recovery**: from any safe disk it leaves, if it returns, no backup and the model at
the final path. -/
theorem triple_recoverStaleBackup :
    Triple (Safe reader start) (Safe reader start) (recoverStaleBackup reader)
      (fun _ => Settled reader start) (fun _ => Safe reader start) := by
  apply triple_read_bind
  intro d₀ hsafe
  split
  · next habsent =>
    apply triple_pure
    rintro d rfl
    refine ⟨habsent, fun hs => ?_, hsafe.published⟩
    rcases hsafe.held hs with hfinal | ⟨-, t, ht, -⟩
    · exact hfinal
    · rw [habsent] at ht
      cases ht
  · refine triple_bind (triple_conseq (triple_rejectReparsePoint (P := Safe reader start) .backup _)
      (by rintro d rfl; exact hsafe) (fun _ _ h => h) (fun _ _ h => h)) ?_
    intro _
    refine triple_bind (triple_validateSlot reader .final |> fun h =>
      triple_conseq h (fun _ h => h) (fun _ _ h => h) (fun _ _ h => h.1)) ?_
    intro finalValidation
    split
    · next hready =>
      -- the final path is ready, so it is the model
      refine triple_conseq (triple_removeBackup (fun _ h => h.safe)) ?_ ?_ (fun _ _ h => h.safe)
      · rintro d ⟨⟨hsafe, -⟩, hiff⟩
        refine ⟨fun hs => ?_, hsafe.published⟩
        rcases hsafe.held hs with hfinal | ⟨hnot, -⟩
        · exact hfinal
        · exact absurd (hiff.mp hready) hnot
      · rintro _ d ⟨hlive, habsent⟩
        exact ⟨habsent, hlive.final, hlive.published⟩
    · next hnot =>
      refine triple_bind (triple_conseq (triple_validateSlot reader .backup)
        (fun _ h => h) (fun _ _ h => h) (fun _ _ h => h.1.1)) ?_
      intro backupValidation
      have haside : ∀ d, Safe reader start d → (finalValidation.ready = true ↔
          FinalReady reader d) → start.isSome = true →
          ¬ FinalReady reader d ∧ BackupGenuine reader start d := by
        intro d hsafe hiff hs
        have hnr : ¬ FinalReady reader d := fun h => hnot (hiff.mpr h)
        rcases hsafe.held hs with ⟨t, ht, hgen⟩ | haside
        · exact absurd ⟨t, ht, hgen.1⟩ hnr
        · exact haside
      split
      · -- restore the backup
        refine triple_bind (R := fun _ d => Aside reader start d ∧ d.nodes .final = .absent)
          (triple_conseq (triple_removeFinal (fun _ h => h.safe)) ?_ (fun _ _ h => h)
            (fun _ _ h => h.safe)) ?_
        · rintro d ⟨⟨⟨hsafe, -⟩, hiff⟩, -⟩
          exact ⟨fun hs => (haside d hsafe hiff hs).1, fun hs => (haside d hsafe hiff hs).2,
            hsafe.published⟩
        · intro _
          refine triple_conseq (triple_replacePath .backup .final
            (fun _ h => (And.left h : Aside reader start _).safe) ?_) (fun _ h => h)
            (fun _ _ h => h) (fun _ _ h => h.1.safe)
          rintro d ⟨h, -⟩ -
          exact ⟨h.restore.safe, h.restore⟩
      · next hbackup =>
        -- neither is ready: no model was there at the start
        refine triple_conseq (triple_removeBackup (fun _ h => h.safe)) ?_ ?_ (fun _ _ h => h.safe)
        · rintro d ⟨⟨⟨hsafe, -⟩, hiff⟩, hiffb⟩
          refine ⟨fun hs => ?_, hsafe.published⟩
          obtain ⟨t, ht, hgen⟩ := (haside d hsafe hiff hs).2
          exact absurd (hiffb.mpr ⟨t, by rw [ht]; rfl, hgen.1⟩) hbackup
        · rintro _ d ⟨hlive, habsent⟩
          exact ⟨habsent, hlive.final, hlive.published⟩

/-! ### Publication -/

/-- A validated directory waits in staging. -/
def Staged (reader : ArtifactReader) (d : Disk) : Prop :=
  ∃ t ∈ d.passed, d.nodes .staging = .dir t ∧ Ready reader t

theorem Genuine.mono {passed : List Tree} {t t' : Tree} (h : Genuine reader start passed t) :
    Genuine reader start (t' :: passed) t :=
  ⟨h.1, h.2.imp id fun hmem => List.mem_cons_of_mem _ hmem⟩

theorem settled_notePassed {d : Disk} (h : Settled reader start d) :
    Settled reader start (notePassed d) := by
  unfold notePassed
  split
  · next tree _ =>
    refine ⟨h.backup, fun hs => ?_, ?_⟩
    · obtain ⟨t, ht, hgen⟩ := h.final hs
      exact ⟨t, ht, hgen.mono⟩
    · intro node hnode
      obtain ⟨t, ht, heq, hready⟩ := h.published node hnode
      exact ⟨t, List.mem_cons_of_mem _ ht, heq, hready⟩
  · exact h

/-- After the live model was moved aside: nothing at the final path. -/
structure MovedAside (reader : ArtifactReader) (start : Option Tree) (previousMoved : Bool)
    (d : Disk) : Prop where
  aside : Aside reader start d
  absent : d.nodes .final = .absent
  staged : Staged reader d
  moved : start.isSome = true → previousMoved = true
  kept : previousMoved = false → d.nodes .backup = .absent

theorem triple_movePrevious :
    Triple (Safe reader start) (fun d => Settled reader start d ∧ Staged reader d) movePrevious
      (fun previousMoved => MovedAside reader start previousMoved)
      (fun _ => Safe reader start) := by
  apply triple_read_bind
  intro d₀ h₀
  split
  · next habsent =>
    apply triple_pure
    rintro d rfl
    obtain ⟨h, hstaged⟩ := h₀
    have hnone : start.isSome = true → False := by
      intro hs
      obtain ⟨t, ht, -⟩ := h.final hs
      rw [habsent] at ht
      cases ht
    exact ⟨⟨fun hs => (hnone hs).elim, fun hs => (hnone hs).elim, h.published⟩, habsent, hstaged,
      fun hs => (hnone hs).elim, fun _ => h.backup⟩
  · refine triple_bind (triple_conseq (triple_rejectReparsePoint
      (P := fun d => Settled reader start d ∧ Staged reader d) .final _)
      (by rintro d rfl; exact h₀) (fun _ _ h => h) (fun _ _ h => h.1.safe)) ?_
    intro _
    refine triple_bind (R := fun _ => MovedAside reader start true)
      (triple_conseq (triple_replacePath .final .backup (fun _ h => (And.left h).1.safe) ?_)
        (fun _ h => h) (fun _ _ h => h) (fun _ _ h => h.1.1.safe)) ?_
    · rintro d ⟨⟨h, hstaged⟩, hlink⟩ -
      have hrename := d.rename_eq (by decide : ¬ (Slot.final = .staging ∧ Slot.backup = .final))
      have haside : Aside reader start (d.rename .final .backup) := by
        rw [hrename]
        refine ⟨fun _ => ?_, fun hs => ?_, h.published⟩
        · rintro ⟨t, ht, -⟩
          rw [Disk.set_self] at ht
          cases ht
        · obtain ⟨t, ht, hgen⟩ := h.final hs
          refine ⟨t, ?_, hgen⟩
          rw [Disk.set_of_ne _ (by decide), Disk.set_self]
          exact Node.eq_dir ht hlink
      refine ⟨haside.safe, haside, ?_, ?_, fun _ => rfl, fun h => by cases h⟩
      · rw [hrename, Disk.set_self]
      · obtain ⟨t, ht, hdir, hready⟩ := hstaged
        refine ⟨t, by rw [hrename]; exact ht, ?_, hready⟩
        rw [hrename, Disk.set_of_ne _ (by decide), Disk.set_of_ne _ (by decide), hdir]
    · intro _
      exact triple_pure fun _ h => h

/-- Undoing the swap keeps the disk safe, wherever it is interrupted. -/
theorem triple_rollBack (previousMoved : Bool) :
    Triple (Safe reader start) (MovedAside reader start previousMoved) (rollBack previousMoved)
      (fun _ => Safe reader start) (fun _ => Safe reader start) := by
  unfold rollBack
  refine triple_bind (R := fun _ => Aside reader start) ?_ ?_
  -- the removal of what was published
  · apply triple_catch (triple_conseq (triple_removeFinal (fun _ h => h.safe))
      (fun _ h => h.aside) (fun _ _ h => And.left h) (fun _ _ h => h))
    intro e
    split
    · exact triple_raise fun _ h => h.safe
    · exact triple_pure fun _ h => h
  intro _
  apply triple_read_bind
  intro d₀ h₀
  split
  · apply triple_catch (triple_conseq (triple_replacePath .backup .final
      (P := Aside reader start) (Q := fun _ => Safe reader start) (fun _ h => h.safe) ?_)
      (by rintro d rfl; exact h₀) (fun _ _ h => h) (fun _ _ h => h.safe))
    · intro e
      split
      · exact triple_pure fun _ h => h
      · exact triple_raise fun _ h => h
    · intro d h _
      exact ⟨h.restore.safe, h.restore.safe⟩
  · apply triple_pure
    rintro d rfl
    exact h₀.safe

/-- The swap: the validated directory becomes the model at the final path. -/
theorem MovedAside.publish {previousMoved : Bool} {d : Disk}
    (h : MovedAside reader start previousMoved d) :
    Live reader start (d.rename .staging .final) := by
  obtain ⟨t, ht, hdir, hready⟩ := h.staged
  have hrename : d.rename .staging .final =
      { (d.set .final (d.nodes .staging)).set .staging .absent with
        published := d.nodes .staging :: d.published } := by
    simp [Disk.rename]
  rw [hrename]
  refine ⟨fun _ => ⟨t, ?_, hready, .inr ht⟩, ?_⟩
  · show (((d.set .final (d.nodes .staging)).set .staging .absent).nodes .final).contents = some t
    rw [Disk.set_of_ne _ (by decide), Disk.set_self, hdir]
    rfl
  · intro node hnode
    rcases List.mem_cons.mp hnode with rfl | hold
    · exact ⟨t, ht, hdir, hready⟩
    · exact h.aside.published node hold

theorem triple_publishStagedOutput :
    Triple (Safe reader start) (Settled reader start) (publishStagedOutput reader)
      (fun _ => Safe reader start) (fun _ => Safe reader start) := by
  refine triple_bind (triple_conseq (triple_rejectReparsePoint (P := Settled reader start) .staging _)
    (fun _ h => h) (fun _ _ h => h) (fun _ _ h => h.safe)) ?_
  intro _
  refine triple_bind (triple_conseq (triple_validateSlot reader .staging)
    (fun _ h => h) (fun _ _ h => h) (fun _ _ h => h.1.safe)) ?_
  intro validation
  split
  · exact triple_raise fun _ h => h.1.1.safe
  · next hready =>
    refine triple_bind (R := fun _ d => Settled reader start d ∧ Staged reader d)
      (triple_note ?_) ?_
    · rintro d ⟨⟨hsettled, hlink⟩, hiff⟩
      obtain ⟨t, ht, htready⟩ := hiff.mp (by simpa using hready)
      have hdir : d.nodes .staging = .dir t := Node.eq_dir ht hlink
      have hnote := settled_notePassed hsettled
      refine ⟨hnote.safe, hnote, t, ?_, ?_, htready⟩
      · simp [notePassed, ht]
      · simpa [notePassed, ht] using hdir
    · intro _
      refine triple_bind triple_movePrevious ?_
      intro previousMoved
      refine triple_bind (R := fun _ => Live reader start) (triple_catch
        (triple_conseq (triple_replacePath .staging .final (P := MovedAside reader start previousMoved)
          (Q := fun _ => Live reader start) (fun _ h => h.aside.safe) ?_)
          (fun _ h => h) (fun _ _ h => h) (fun _ _ h => h)) ?_) ?_
      · intro d h _
        exact ⟨h.publish.safe, h.publish⟩
      · intro e
        refine triple_bind (triple_rollBack previousMoved) ?_
        intro _
        exact triple_raise fun _ h => h
      · intro _
        split
        · apply triple_catch (triple_conseq (triple_removeBackup (fun _ h => h.safe))
            (fun _ h => h) (fun _ _ h => (And.left h).safe) (fun _ _ h => h.safe))
          intro e
          split
          · exact triple_pure fun _ h => h
          · exact triple_raise fun _ h => h
        · exact triple_pure fun _ h => h.safe

/-! ### The transaction -/

theorem triple_removeStaging {P : Disk → Prop} (hP : ∀ d node, P d → P (d.set .staging node))
    (hJ : ∀ d, P d → Safe reader start d) :
    Triple (Safe reader start) P (removePath .staging)
      (fun _ d => P d ∧ d.nodes .staging = .absent) (fun _ => P) :=
  triple_removePath .staging hJ (fun d _ _ h _ => hP d _ h) (fun d h => hP d _ h)

theorem triple_runBody (body : TransactionBody) :
    Triple (Safe reader start) (Settled reader start) (runBody body)
      (fun _ => Settled reader start) (fun _ => Settled reader start) := by
  have hwrites : ∀ writes, Triple (Safe reader start) (Settled reader start) (runWrites writes)
      (fun _ => Settled reader start) (fun _ => Settled reader start) := by
    intro writes
    induction writes with
    | nil => exact triple_pure fun _ h => h
    | cons node rest ih =>
      refine triple_bind (R := fun _ => Settled reader start)
        (triple_perform (fun _ h => h.safe) ?_) (fun _ => ih)
      intro k d h
      cases k with
      | go choice => exact ⟨(h.set_staging node).safe, h.set_staging node⟩
      | fail e => exact h
  refine triple_bind (hwrites body.writes) ?_
  intro _
  split
  · exact triple_pure fun _ h => h
  · exact triple_raise fun _ h => h

/-- Entering a transaction: if it returns, staging and backup are clean. -/
theorem triple_enterTransaction :
    Triple (Safe reader start) (Safe reader start) (enterTransaction reader)
      (fun _ d => Settled reader start d ∧ d.nodes .staging = .absent)
      (fun _ => Safe reader start) := by
  refine triple_bind (R := fun _ => Safe reader start) (triple_conseq
    (triple_rejectReparsePoint .final _) (fun _ h => h) (fun _ _ h => And.left h)
    (fun _ _ h => h)) ?_
  intro _
  refine triple_bind (triple_elsewhere fun _ h => h) ?_
  intro _
  refine triple_bind (triple_elsewhere fun _ h => h) ?_
  intro _
  refine triple_bind triple_recoverStaleBackup ?_
  intro _
  exact triple_conseq
    (triple_removeStaging (P := Settled reader start) (fun _ node h => h.set_staging node)
      (fun _ h => h.safe))
    (fun _ h => h) (fun _ _ h => h) (fun _ _ h => h.safe)

/-- **One transaction** keeps the disk safe at every point, whether it returns, raises or
stops. -/
theorem triple_stagedModelOutput (body : TransactionBody) :
    Triple (Safe reader start) (Safe reader start) (stagedModelOutput reader body)
      (fun _ => Safe reader start) (fun _ => Safe reader start) := by
  refine triple_bind triple_enterTransaction ?_
  intro _
  have hbody : Triple (Safe reader start)
      (fun d => Settled reader start d ∧ d.nodes .staging = .absent)
      (do runBody body; publishStagedOutput reader)
      (fun _ => Safe reader start) (fun _ => Safe reader start) := by
    refine triple_bind (triple_conseq (triple_runBody body) (fun _ h => h.1) (fun _ _ h => h)
      (fun _ _ h => h.safe)) ?_
    exact fun _ => triple_publishStagedOutput
  apply triple_catch hbody
  intro e
  refine triple_bind (R := fun _ => Safe reader start) (triple_catch
    (triple_conseq (triple_removeStaging (P := Safe reader start)
      (fun _ node h => h.set_staging node) (fun _ h => h)) (fun _ h => h)
      (fun _ _ h => And.left h) (fun _ _ h => h)) ?_) ?_
  · intro cleanup
    split
    · exact triple_pure fun _ h => h
    · exact triple_pure fun _ h => h
    · exact triple_raise fun _ h => h
  · intro _
    exact triple_raise fun _ h => h

/-! ### Whole runs -/

/-- The disk at the start of a run: no history yet. -/
def Disk.fresh (nodes : Slot → Node) : Disk := { nodes := nodes, passed := [], published := [] }

/-- A run: transactions one after another, each in a process of its own. -/
def transactions (reader : ArtifactReader) (bodies : List (TransactionBody × List Fate)) :
    List (Fs Unit × List Fate) :=
  bodies.map fun p => (stagedModelOutput reader p.1, p.2)

theorem safe_fresh {nodes : Slot → Node} (hstart : ∀ t, start = some t →
    (nodes .final).contents = some t ∧ Ready reader t) : Safe reader start (Disk.fresh nodes) := by
  refine ⟨fun hs => ?_, by simp [PublishedPassed, Disk.fresh]⟩
  obtain ⟨t, ht⟩ := Option.isSome_iff_exists.mp hs
  obtain ⟨hfinal, hready⟩ := hstart t ht
  exact .inl ⟨t, hfinal, hready, .inl ht⟩

theorem safe_transactions {nodes : Slot → Node} (hstart : ∀ t, start = some t →
    (nodes .final).contents = some t ∧ Ready reader t)
    (bodies : List (TransactionBody × List Fate)) :
    ∀ d ∈ (runs (transactions reader bodies) (Disk.fresh nodes)).2, Safe reader start d := by
  refine (runs_invariant ?_ (safe_fresh hstart)).2
  intro p hp
  obtain ⟨b, -, rfl⟩ := List.mem_map.mp hp
  exact triple_stagedModelOutput b.1

/-- **Crash safety of publication.**  At every point of every run of transactions, each
stopped after any operation or failing at any operation:

1. if the run started with a ready model at the final path, then the final path or the
   backup holds a ready model, the original one or one that passed the validation in staging;
2. whatever was renamed from staging to the final path had passed the validation;
3. if the next transaction's recovery returns, there is no backup, and if its whole entry
   returns there is nothing in staging either; a run that started with a ready model has one,
   the original or a validated one, at the final path. -/
theorem stagedModelOutput_crash_safe (reader : ArtifactReader) (nodes : Slot → Node)
    (bodies : List (TransactionBody × List Fate)) :
    ∀ d ∈ (runs (transactions reader bodies) (Disk.fresh nodes)).2,
      (∀ original, (nodes .final).contents = some original → Ready reader original →
        ∃ t, ((d.nodes .final).contents = some t ∨ d.nodes .backup = .dir t) ∧
          Ready reader t ∧ (t = original ∨ t ∈ d.passed)) ∧
      (∀ node ∈ d.published, ∃ t ∈ d.passed, node = .dir t ∧ Ready reader t) ∧
      (∀ fates, (recoverStaleBackup reader d fates).outcome = .returned () →
        (recoverStaleBackup reader d fates).state.nodes .backup = .absent ∧
        ∀ original, (nodes .final).contents = some original → Ready reader original →
          ∃ t, ((recoverStaleBackup reader d fates).state.nodes .final).contents = some t ∧
            Ready reader t ∧
            (t = original ∨ t ∈ (recoverStaleBackup reader d fates).state.passed)) ∧
      (∀ fates, (enterTransaction reader d fates).outcome = .returned () →
        (enterTransaction reader d fates).state.nodes .backup = .absent ∧
        (enterTransaction reader d fates).state.nodes .staging = .absent ∧
        ∀ original, (nodes .final).contents = some original → Ready reader original →
          ∃ t, ((enterTransaction reader d fates).state.nodes .final).contents = some t ∧
            Ready reader t ∧
            (t = original ∨ t ∈ (enterTransaction reader d fates).state.passed)) := by
  intro d hd
  have hnone : Safe reader none d := safe_transactions (by simp) bodies d hd
  have hsome : ∀ original, (nodes .final).contents = some original → Ready reader original →
      Safe reader (some original) d := by
    intro original hfinal hready
    refine safe_transactions ?_ bodies d hd
    rintro t ⟨⟩
    exact ⟨hfinal, hready⟩
  -- a genuine model of a run that started with `original`
  have hgenuine : ∀ {original t : Tree} {passed : List Tree},
      Genuine reader (some original) passed t →
      Ready reader t ∧ (t = original ∨ t ∈ passed) := by
    rintro original t passed ⟨hready, heq | hmem⟩
    · cases heq
      exact ⟨hready, .inl rfl⟩
    · exact ⟨hready, .inr hmem⟩
  refine ⟨?_, hnone.published, ?_, ?_⟩
  · intro original hfinal hready
    rcases (hsome original hfinal hready).held rfl with ⟨t, ht, hgen⟩ | ⟨-, t, ht, hgen⟩
    · exact ⟨t, .inl ht, hgenuine hgen⟩
    · exact ⟨t, .inr ht, hgenuine hgen⟩
  · intro fates hreturned
    have hrecover := fun {start} (h : Safe reader start d) =>
      (triple_recoverStaleBackup d fates h).2
    simp only [hreturned] at hrecover
    refine ⟨(hrecover hnone).backup, ?_⟩
    intro original hfinal hready
    obtain ⟨t, ht, hgen⟩ := (hrecover (hsome original hfinal hready)).final rfl
    exact ⟨t, ht, hgenuine hgen⟩
  · intro fates hreturned
    have henter := fun {start} (h : Safe reader start d) =>
      (triple_enterTransaction d fates h).2
    simp only [hreturned] at henter
    refine ⟨(henter hnone).1.backup, (henter hnone).2, ?_⟩
    intro original hfinal hready
    obtain ⟨t, ht, hgen⟩ := (henter (hsome original hfinal hready)).1.final rfl
    exact ⟨t, ht, hgenuine hgen⟩

/-- A model directory: an IR file, its weights and a configuration. -/
def sampleModel : Tree where
  entries := [("openvino_model.xml", .file (netOpen ++ netClose)),
    ("openvino_model.bin", .file [0]), ("config.json", .file [0])]
  nodup := by decide

/-- A reader to which every stream is an IR file and every text a configuration. -/
def lenientReader : ArtifactReader :=
  ⟨fun _ => some ['n', 'e', 't'], fun _ => .ok (.obj [])⟩

/-- The disk of a transaction that stopped between its two renames: a ready model at the
final path, the same model written to staging, and four operations. -/
def interruptedSwap : Disk :=
  (stagedModelOutput lenientReader ⟨[.dir sampleModel], none⟩
    (Disk.fresh (Function.update (fun _ => .absent) .final (.dir sampleModel)))
    (List.replicate 4 (.go 0))).state

theorem stagedModelOutput_crash_safe_interrupted :
    interruptedSwap.nodes .final = .absent ∧
      ∃ t, ((interruptedSwap.nodes .final).contents = some t ∨
        interruptedSwap.nodes .backup = .dir t) ∧ Ready lenientReader t ∧
        (t = sampleModel ∨ t ∈ interruptedSwap.passed) := by
  refine ⟨rfl, ?_⟩
  have hvisited : interruptedSwap ∈ (runs (transactions lenientReader
      [(⟨[.dir sampleModel], none⟩, List.replicate 4 (.go 0))])
      (Disk.fresh (Function.update (fun _ => .absent) .final (.dir sampleModel)))).2 :=
    List.mem_append_right _ (List.mem_singleton_self _)
  exact (stagedModelOutput_crash_safe lenientReader _ _ _ hvisited).1 sampleModel rfl
    ⟨_, rfl, rfl⟩

/-! ### Recovery from an arbitrary disk -/

/-- **What recovery does to any disk**: when it returns there is no backup, and the final
path is ready exactly when the final path or the backup was. -/
theorem recoverStaleBackup_spec (reader : ArtifactReader) (d₀ : Disk) (fates : List Fate)
    (hreturned : (recoverStaleBackup reader d₀ fates).outcome = .returned ()) :
    (recoverStaleBackup reader d₀ fates).state.nodes .backup = .absent ∧
      (FinalReady reader (recoverStaleBackup reader d₀ fates).state ↔
        FinalReady reader d₀ ∨ ∃ t, d₀.nodes .backup = .dir t ∧ Ready reader t) := by
  have hframe : ∀ (d : Disk) (node : Node),
      FinalReady reader (d.set .backup node) ↔ FinalReady reader d := by
    intro d node
    simp [FinalReady]
  -- deleting the backup, by what it leaves alone
  have hdelete : ∀ r : Prop, Triple (fun _ => True) (fun d => FinalReady reader d ↔ r)
      (removePath .backup) (fun _ d => (FinalReady reader d ↔ r) ∧ d.nodes .backup = .absent)
      (fun _ _ => True) := by
    intro r
    refine triple_conseq (triple_removePath (I := fun d => FinalReady reader d ↔ r) .backup
      (fun _ _ => trivial) ?_ ?_) (fun _ h => h) (fun _ _ h => h) (fun _ _ _ => trivial)
    · intro d tree i h _
      rw [hframe]
      exact h
    · intro d h
      rw [hframe]
      exact h
  have htriple : Triple (fun _ => True) (fun d => d = d₀) (recoverStaleBackup reader)
      (fun _ d => (FinalReady reader d ↔
        FinalReady reader d₀ ∨ ∃ t, d₀.nodes .backup = .dir t ∧ Ready reader t) ∧
        d.nodes .backup = .absent)
      (fun _ _ => True) := by
    apply triple_read_bind
    rintro d rfl
    split
    · next habsent =>
      apply triple_pure
      rintro d rfl
      exact ⟨by simp [habsent], habsent⟩
    · refine triple_bind (triple_conseq (triple_rejectReparsePoint (P := fun s => s = d) .backup _)
        (fun _ h => h) (fun _ _ h => h) (fun _ _ _ => trivial)) ?_
      intro _
      refine triple_bind (triple_conseq (triple_validateSlot reader .final)
        (fun _ h => h) (fun _ _ h => h) (fun _ _ _ => trivial)) ?_
      intro finalValidation
      split
      · next hready =>
        refine triple_conseq (hdelete _) ?_ (fun _ _ h => h) (fun _ _ h => h)
        rintro s ⟨⟨rfl, -⟩, hiff⟩
        exact iff_of_true (hiff.mp hready) (.inl (hiff.mp hready))
      · next hnot =>
        refine triple_bind (triple_conseq (triple_validateSlot reader .backup)
          (fun _ h => h) (fun _ _ h => h) (fun _ _ _ => trivial)) ?_
        intro backupValidation
        split
        · next hready =>
          let Kept : Disk → Prop := fun s =>
            ∃ t, s.nodes .backup = .dir t ∧ d.nodes .backup = .dir t ∧ Ready reader t
          have hremove : Triple (fun _ => True) Kept (removePath .final) (fun _ => Kept)
              (fun _ _ => True) := by
            refine triple_conseq (triple_removePath (I := Kept) .final (fun _ _ => trivial) ?_ ?_)
              (fun _ h => h) (fun _ _ h => And.left h) (fun _ _ _ => trivial)
            · rintro s tree i ⟨t, hs, hd, ht⟩ -
              exact ⟨t, by rw [s.set_of_ne (by decide), hs], hd, ht⟩
            · rintro s ⟨t, hs, hd, ht⟩
              exact ⟨t, by rw [s.set_of_ne (by decide), hs], hd, ht⟩
          refine triple_bind (triple_conseq hremove ?_ (fun _ _ h => h) (fun _ _ h => h)) ?_
          · rintro s ⟨⟨⟨rfl, hlink⟩, -⟩, hiff⟩
            obtain ⟨t, ht, htready⟩ := hiff.mp hready
            have hdir := Node.eq_dir ht hlink
            exact ⟨t, hdir, hdir, htready⟩
          · intro _
            refine triple_conseq (triple_replacePath .backup .final (P := Kept)
              (fun _ _ => trivial) ?_) (fun _ h => h) (fun _ _ h => h) (fun _ _ _ => trivial)
            rintro s ⟨t, hs, hd, ht⟩ -
            rw [s.rename_eq (by decide)]
            refine ⟨trivial, iff_of_true ⟨t, ?_, ht⟩ (.inr ⟨t, hd, ht⟩), Disk.set_self _ _ _⟩
            rw [Disk.set_of_ne _ (by decide), Disk.set_self, hs]
            rfl
        · next hbackup =>
          refine triple_conseq (hdelete _) ?_ (fun _ _ h => h) (fun _ _ h => h)
          rintro s ⟨⟨⟨rfl, -⟩, hiff⟩, hiffb⟩
          refine iff_of_false (fun h => hnot (hiff.mpr h)) ?_
          rintro (h | ⟨t, ht, htready⟩)
          · exact hnot (hiff.mpr h)
          · exact hbackup (hiffb.mpr ⟨t, by rw [ht]; rfl, htready⟩)
  have hend := (htriple d₀ fates rfl).2
  simp only [hreturned] at hend
  exact ⟨hend.2, hend.1⟩

end InferBridge
