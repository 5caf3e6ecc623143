import DartUdp.Proofs.StoragePartials

/-!
# What is registered

A record says which file it is about and where that file is to go, and it never changes
its mind: a call brings a record forward, starts it over or makes it anew for what the caller
registers, and keeps what is registered in it. So whatever is true of the registrations in
the records that are found, and of those that callers make, is true of all there
ever are.

It is used for two things. Every record is in the file of the file it is about, which is
how a storage wants to find them when it is opened; and no file is to go where the
storage has its own files.

`Method.records` is the result, for any property of registrations, and
`openStorage_records` the same for recovery.
-/

namespace DartUdp.Storage

open DartUdp.Lib DartUdp.Transfer DartUdp.Session

variable {d d' : Disk} {p q : Path} {H : Host} {policy : OverwritePolicy} {pid : Nat}
  {t t' : TransferId} {f f' : FileId} {r : StateRecord} {registration : FileRegistration}
  {G : Path → FileRegistration → Prop}

/-! ## Record files -/

def IsRecord (q : Path) : Prop := q.dropLast.dropLast = sessionsDirectory ∧ IsState q

theorem Spares.records (h : Spares IsRecord d d') : Keeps (Records G) d d' := by
  intro hrecords p r hp hst hrec
  rw [h p ⟨hp, hst⟩] at hrec
  exact hrecords p r hp hst hrec

theorem partialPath_not_record : ¬ IsRecord (partialPath t f) :=
  fun h => partialPath_ne_of_sessions h.1 rfl

theorem length_record (h : IsRecord q) : q.length = 4 := by
  have hlen := congrArg List.length h.1
  have htwo : sessionsDirectory.length = 2 := by decide
  simp only [List.length_dropLast, htwo] at hlen
  omega

theorem sessionDirectory_not_record : ¬ IsRecord (sessionDirectory t) := by
  intro h
  have hlen := length_record h
  simp [sessionDirectory, sessionsDirectory, storageDirectory] at hlen

theorem partialDirectory_not_record : ¬ IsRecord (partialDirectory t) := by
  intro h
  have hlen := length_record h
  simp [partialDirectory, partialsDirectory, storageDirectory] at hlen

theorem statePath_record (t : TransferId) (f : FileId) : IsRecord (statePath t f) :=
  ⟨statePath_sessions t f, isState_statePath t f⟩

theorem Records.at {fs : Fs} (h : Records G fs) (hrec : recordAt t f fs = some r) :
    G (statePath t f) r.registration :=
  h _ r (statePath_sessions t f) (isState_statePath t f) hrec

/-- What is not there is not wrong. -/
theorem records_of_removed (h : ∀ q, d'.fs.get? q = d.fs.get? q ∨ d'.fs.get? q = none) :
    Keeps (Records G) d d' := by
  intro hrecords p r hp hst hrec
  rcases h p with hx | hx
  · rw [hx] at hrec
    exact hrecords p r hp hst hrec
  · rw [hx] at hrec
    cases hrec

theorem Sets.removed (h : Sets d d' p none) : ∀ q, d'.fs.get? q = d.fs.get? q ∨
    d'.fs.get? q = none := by
  intro q
  rw [h q]
  split
  · exact .inr rfl
  · exact .inl rfl

theorem forget_records {operation : String} :
    Within (Keeps (Records G)) (write operation (·.erase? p)) d := by
  refine write_ends.mono (fun _ d' h => ?_) fun _ d' h => ?_
  · exact records_of_removed (Sets.removed (Fs.erase?_eq_some h))
  · subst h
    exact Std.Refl.refl _

/-- A record is written whose registration is as it should be. -/
theorem writeState_records (hvalid : r.Valid) (hfree : Unspent pid d.fs)
    (hgood : G (statePath t f) r.registration) :
    Within (Keeps (Records G)) (writeState pid (statePath t f) r) d := by
  have hdir : ∀ {q}, IsRecord q → q ≠ (statePath t f).dropLast := by
    rintro q hq rfl
    rw [sessionDirectory_dropLast] at hq
    exact sessionDirectory_not_record hq
  refine (writeState_ends fun counter => hfree.free counter).mono ?_ fun _ d' hother => ?_
  · rintro - d' ⟨hwritten, hother⟩ hrecords p r' hp hst hrec
    by_cases hself : p = statePath t f
    · subst hself
      rw [hwritten, recordOf_encodeState hvalid] at hrec
      obtain rfl := Option.some.inj hrec
      exact hgood
    · rw [hother p hself (hdir ⟨hp, hst⟩)] at hrec
      exact hrecords p r' hp hst hrec
  · exact Spares.records fun q hq => hother q (hdir hq)

/-! ## The calls -/

theorem recoverRecord_registration {r' : StateRecord} (h : recoverRecord H r d = .ok r' d') :
    r'.registration = r.registration := by
  cases hr : r.complete with
  | false =>
      rcases (recoverRecord_inv hr h).record with rfl | rfl
      · rfl
      · rfl
  | true =>
      rcases (recoverRecord_finished hr h).2 with rfl | ⟨-, -, hsame⟩
      · rfl
      · exact hsame

theorem recoverRecord_records : Within (Keeps (Records G)) (recoverRecord H r) d := by
  have hspares : Within (Spares IsRecord) (recoverRecord H r) d :=
    recoverRecord_within (fun _ _ _ => put_spares partialPath_not_record)
      fun _ _ => erase_spares partialPath_not_record
  exact Within.mono hspares fun _ h => h.records

theorem registerFile_records (ht : registration.Typed) (hfree : Unspent pid d.fs)
    (hgood : G (statePath registration.transferId registration.fileId) registration)
    (hrecords : Records G d.fs) :
    Within (Keeps (Records G)) (registerFile H pid registration) d := by
  have hfoot := unspent_footprint pid registration.transferId registration.fileId
  unfold registerFile
  split
  · exact .throw _
  · next hpath =>
      have hdirs : Within (Spares IsRecord) (ensureTransferDirectories registration.transferId) d :=
        .bind (ensureDirectory_spares sessionDirectory_not_record) fun _ _ =>
          ensureDirectory_spares partialDirectory_not_record
      refine .bind_with (P := fun _ d => Unspent pid d.fs ∧ Records G d.fs)
        ((Ends.and hdirs (hfoot.dirs d)).mono
          (fun _ _ h => ⟨h.1.records, h.2 hfree, h.1.records hrecords⟩) fun _ _ h => h.1.records) ?_
      rintro - d₁ - ⟨hfree₁, hrecords₁⟩
      have hstart : Within (Keeps (Records G)) (recordToRegister registration) d₁ :=
        recordToRegister_within
          (fun _ _ => Within.mono (erase_spares partialPath_not_record) fun _ h => h.records)
          fun _ _ => forget_records
      have hkeeps : Within (Keeps (Unspent pid)) (recordToRegister registration) d₁ :=
        recordToRegister_within hfoot.erase hfoot.forget
      have hfound : Ends (recordToRegister registration) d₁
          (fun r _ => G (statePath registration.transferId registration.fileId) r.registration)
          fun _ _ => True := by
        refine recordToRegister_ends.mono ?_ fun _ _ _ => trivial
        rintro r d₂ (⟨-, rfl, hrec⟩ | ⟨rfl, -, -⟩)
        · exact hrecords₁.at hrec
        · exact hgood
      have hvalid := recordToRegister_valid (d := d₁) ht hpath
      refine .bind_with (P := fun r d => Unspent pid d.fs ∧ r.Valid ∧
          G (statePath registration.transferId registration.fileId) r.registration)
        ((Ends.and hstart (Ends.and hkeeps (hvalid.and hfound))).mono
          (fun _ _ h => ⟨h.1, h.2.1 hfree₁, h.2.2⟩) fun _ _ h => h.1) ?_
      rintro r d₂ - ⟨hfree₂, hvalid₂, hgood₂⟩
      have hkept : Within (Keeps (Unspent pid)) (recoverRecord H r) d₂ := recoverRecord_unspent
      refine .bind_with (P := fun r' d₃ => Unspent pid d₃.fs ∧ recoverRecord H r d₂ = .ok r' d₃ ∧
          r'.Valid)
        ((Ends.and recoverRecord_records (Ends.and hkept
          ((Ends.run _ _).and (recoverRecord_valid hvalid₂)))).mono
          (fun _ _ h => ⟨h.1, h.2.1 hfree₂, h.2.2⟩) fun _ _ h => h.1) ?_
      rintro r' d₃ - ⟨hfree₃, hrun, hvalid₃⟩
      exact writeState_records hvalid₃ hfree₃ (recoverRecord_registration hrun ▸ hgood₂)

theorem checkpoint_records {state : DurableState} (ht : TypedState state)
    (hfree : Unspent pid d.fs) (hrecords : Records G d.fs) :
    Within (Keeps (Records G)) (checkpoint pid t f state) d := by
  refine loadRecord_reads.bind_within fun r hload => ?_
  have hrec : recordAt t f d.fs = some r := (loadRecord_inv hload).1
  have hgood : G (statePath t f) r.registration := hrecords.at hrec
  refine .ite (fun _ => .pure _) fun _ => fileLengthIfExists_reads.bind_within fun length _ => ?_
  refine .ite (fun _ => .throw _) fun _ => .ite (fun _ => .throw _) fun _ => ?_
  refine .ite (fun _ => .pure _) fun _ => ?_
  have hsync : Within (Spares IsRecord) (syncPartial (partialPath t f) r.registration.size
      state.durableOffset) d :=
    syncPartial_within fun _ _ _ => put_spares partialPath_not_record
  have hkeeps : Within (Keeps (Unspent pid)) (syncPartial (partialPath t f) r.registration.size
      state.durableOffset) d := syncPartial_within (unspent_footprint pid t f).put
  refine .bind_with (P := fun _ d => Unspent pid d.fs) ((Ends.and hsync hkeeps).mono
    (fun _ _ h => ⟨h.1.records, h.2 hfree⟩) fun _ _ h => h.1.records) fun _ d₁ _ hfree₁ => ?_
  exact writeState_records ((recordOf_valid hrec).checkpointed ht) hfree₁ hgood

theorem resetFile_records (hfree : Unspent pid d.fs) (hrecords : Records G d.fs) :
    Within (Keeps (Records G)) (resetFile pid t f) d := by
  refine loadRecord_reads.bind_within fun r hload => ?_
  have hrec : recordAt t f d.fs = some r := (loadRecord_inv hload).1
  have hgood : G (statePath t f) r.registration := hrecords.at hrec
  have hremove : Within (Spares IsRecord) (removeFileIfExists (partialPath t f)) d :=
    removeFileIfExists_within fun _ _ => erase_spares partialPath_not_record
  have hkeeps : Within (Keeps (Unspent pid)) (removeFileIfExists (partialPath t f)) d :=
    removeFileIfExists_within (unspent_footprint pid t f).erase
  refine .bind_with (P := fun _ d => Unspent pid d.fs) ((Ends.and hremove hkeeps).mono
    (fun _ _ h => ⟨h.1.records, h.2 hfree⟩) fun _ _ h => h.1.records) fun _ d₁ _ hfree₁ => ?_
  exact writeState_records (recordOf_valid hrec).renewed hfree₁ hgood

/-- The registrations that a call makes are as they should be. -/
def Method.Registers (G : Path → FileRegistration → Prop) : Method → Prop
  | .call (.registerFile registration) =>
      G (statePath registration.transferId registration.fileId) registration
  | _ => True

/-- Whatever is received, the registrations stay as they should be. -/
theorem Method.records {m : Method} (hm : m.Receives) (ht : m.Typed) (hgood : m.Registers G)
    (hfree : Unspent pid d.fs) (hrecords : Records G d.fs) :
    Records G (after (m.run H policy pid) d).fs := by
  have hwithin : Within (Keeps (Records G)) (m.run H policy pid) d := by
    cases m with
    | call c =>
        cases c with
        | registerFile registration => exact registerFile_records ht hfree hgood hrecords
        | writeData t f offset data =>
            have hspares : Within (Spares IsRecord) (writeData t f offset data) d :=
              writeData_within fun _ _ _ => put_spares partialPath_not_record
            exact Within.mono hspares fun _ h => h.records
        | checkpoint t f state => exact checkpoint_records ht hfree hrecords
        | completeFile t f size hash => exact hm.elim
    | resetFile t f => exact resetFile_records hfree hrecords
    | openStorage => exact hm.elim
    | cleanupTransfer t => exact hm.elim
    | durableState t f => exact hm.elim
  exact hwithin.after hrecords

theorem openStorage_records (hrecords : Records G d.fs) (h : openStorage H pid d = .ok () d') :
    Records G d'.fs := by
  refine openStorage_keeps (J := fun d => Records G d.fs) ?_ ?_ h
  · intro p d₁ d₂ hs hst hrun hJ
    have hne : p ≠ [] := by
      rintro rfl
      revert hs
      decide
    rcases recoverState_inv hne hrun with ⟨-, hsets⟩ | ⟨r, r', d₀, hr, hrecover, hsets⟩
    · exact records_of_removed hsets.removed hJ
    · have hgood := hJ p r hs hst hr
      have hvalid := (recoverRecord_valid (recordOf_valid hr)).ok hrecover
      intro q r₁ hq hqst hr₁
      rw [hsets (sessions_ne_partials hs) q] at hr₁
      split at hr₁
      · next hqp =>
          rw [recordOf_encodeState hvalid] at hr₁
          obtain rfl := Option.some.inj hr₁
          rw [hqp, recoverRecord_registration hrecover]
          exact hgood
      · rw [recoverRecord_frame hrecover (sessions_ne_partials hq)] at hr₁
        exact hJ q r₁ hq hqst hr₁
  · intro d₁ hlayout p r hp hst hrec
    rcases ensureLayout_get hlayout p with hx | ⟨-, hx, -, -⟩
    · rw [hx] at hrec
      exact hrecords p r hp hst hrec
    · rw [hx] at hrec
      cases hrec

/-! ## Opening again -/

/-- A storage that was opened and has received files is left the way it has to be found
to be opened again. -/
theorem reopened {d₀ : Disk} {methods : List Method} (hfiled : Filed d.fs)
    (hfree : Unspent pid d.fs) (hopen : openStorage H pid d = .ok () d₀)
    (hm : ∀ m ∈ methods, m.Receives ∧ m.Typed) :
    Filed (runMethods H policy pid d₀ methods).fs ∧
      Unspent pid (runMethods H policy pid d₀ methods).fs := by
  have hown : ∀ m : Method, m.Registers fun p registration =>
      p = statePath registration.transferId registration.fileId := by
    intro m
    cases m with
    | call c => cases c <;> trivial
    | _ => trivial
  have hrun : ∀ {methods : List Method} {d : Disk}, (∀ m ∈ methods, m.Receives ∧ m.Typed) →
      Filed d.fs → Tended (fun _ => True) pid d.fs →
      Filed (runMethods H policy pid d methods).fs := by
    intro methods
    induction methods with
    | nil => exact fun _ hd _ => hd
    | cons m rest ih =>
        intro d hm hd htended
        have hfirst := hm m List.mem_cons_self
        exact ih (fun m' hm' => hm m' (List.mem_cons_of_mem _ hm'))
          (m.records hfirst.1 hfirst.2 (hown m) htended.unspent hd)
          (htended.step hfirst.1 hfirst.2)
  have htended : Tended (fun _ => True) pid d₀.fs := openStorage_tended hfiled hfree hopen
  exact ⟨hrun hm (openStorage_records hfiled hopen) htended, (htended.run hm).unspent⟩

end DartUdp.Storage
