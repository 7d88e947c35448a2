import MediaCatalog.Proofs.Identity.Undisturbed
import MediaCatalog.Workspace.Files

/-!
Calls in a workspace are calls on a registry: the catalog that the database
hands over and the supply of the workspace. Each step of a call is the same
step there, unless the database cannot be read, which ends the call. As long
as the database hands over what was left in it, a whole call is the call on
the registry.
-/

namespace MediaCatalog.Workspace

/-- What a call meets in a workspace. -/
def surroundings (ws : Workspace) (locked : Bool) : Surroundings :=
  ⟨ws.present, ws.digest, locked⟩

/-- To be read a file has to be found. -/
theorem surroundings_faithful (ws : Workspace) (locked : Bool) :
    (ws.surroundings locked).Faithful := by
  intro path digest hdigest
  have hread : (ws.disk.read ws.here (.ofText path)).map Digest.digest = .ok digest := hdigest
  change (ws.disk.find? ws.here (.ofText path)).isOk = true
  unfold Disk.read at hread
  cases hfound : ws.disk.find? ws.here (.ofText path) with
  | ok node => rfl
  | error fault =>
      rw [hfound] at hread
      cases hread

variable {ws between : Workspace} {store : Store} {maxRetries failed : Nat} {call : Call}

theorem startCall_of_absolute {path whole : Path} {key : String} {size : UInt64} {modified : Int}
    (habsolute : Path.absolute? ws.here path = some whole) (htext : whole.text? = some key) :
    ws.startCall path size modified = .ok (.start ⟨key, size, modified⟩) := by
  simp only [startCall, Workspace.key, absolute, habsolute, htext, bind, Except.bind, pure,
    Except.pure]

section Steps

theorem advance_lookUp (hstage : call.stage = .lookUp failed) {catalog : Catalog}
    (hread : ws.perform (store.read .files) = (.ok catalog, between)) (around : Surroundings)
    (supply : IdSupply) :
    ws.advance store maxRetries call =
      ((call.next maxRetries around ⟨catalog, supply⟩).1, between) := by
  simp only [advance, Call.next, hstage, hread]

theorem advance_hash (hstage : call.stage = .hash failed) (locked : Bool)
    (registry : Registry) :
    ws.advance store maxRetries call =
      ((call.next maxRetries (ws.surroundings locked) registry).1, ws) := by
  simp only [advance, Call.next, hstage, surroundings]

/-- A transaction is one on the catalog that was handed over, and what it leaves
is handed back. -/
theorem advance_commit {digest : Option String} (hstage : call.stage = .commit failed digest)
    {connection : Connection} {reading : Reading} {catalog : Catalog}
    (hbegun : ws.perform store.beginWrite = (.ok (connection, reading), between))
    (htables : reading.tables = some catalog) :
    let next := call.next maxRetries (between.surroundings false) ⟨catalog, between.supply⟩
    ws.advance store maxRetries call =
      (next.1, { (between.perform (connection.finish reading (some next.2.catalog))).2 with
        supply := next.2.supply }) := by
  simp only [advance, Call.next, hstage, hbegun, htables, surroundings]

/-- An attempt that meets another writer comes to nothing. -/
theorem advance_busy {digest : Option String} (hstage : call.stage = .commit failed digest)
    {fault : CatalogFault} (hbegun : ws.perform store.beginWrite = (.error fault, between))
    (hbusy : fault.isBusy = true) (registry : Registry) :
    ws.advance store maxRetries call =
      ((call.next maxRetries (ws.surroundings true) registry).1, between) := by
  simp only [advance, Call.next, Call.commit, hstage, hbegun, hbusy, surroundings, if_true]

/-- Whatever the database does, a step of a call ends it with a fault or is a
step on a registry. -/
theorem advance_cases (ws : Workspace) (store : Store) (maxRetries : Nat) (call : Call) :
    (∃ fault, (ws.advance store maxRetries call).1 = call.goTo (.done (.error fault))) ∨
      ∃ around registry, around.Faithful ∧
        (ws.advance store maxRetries call).1 = (call.next maxRetries around registry).1 := by
  cases hstage : call.stage with
  | done answer =>
      refine Or.inr ⟨ws.surroundings false, ⟨{}, ws.supply⟩, surroundings_faithful ws false, ?_⟩
      simp only [advance, Call.next, hstage]
  | hash failed =>
      refine Or.inr ⟨ws.surroundings false, ⟨{}, ws.supply⟩, surroundings_faithful ws false, ?_⟩
      rw [advance_hash hstage false ⟨{}, ws.supply⟩]
  | lookUp failed =>
      cases hread : ws.perform (store.read .files) with
      | mk answer between =>
          cases answer with
          | ok catalog =>
              refine Or.inr
                ⟨ws.surroundings false, ⟨catalog, ws.supply⟩, surroundings_faithful ws false, ?_⟩
              rw [advance_lookUp hstage hread]
          | error fault =>
              left
              refine ⟨fault, ?_⟩
              simp only [advance, hstage, hread]
  | commit failed digest =>
      cases hbegun : ws.perform store.beginWrite with
      | mk answer between =>
          cases answer with
          | ok begun =>
              obtain ⟨connection, reading⟩ := begun
              cases htables : reading.tables with
              | none =>
                  left
                  refine ⟨.database (.noTable .files), ?_⟩
                  simp only [advance, hstage, hbegun, htables]
              | some catalog =>
                  refine Or.inr ⟨between.surroundings false, ⟨catalog, between.supply⟩,
                    surroundings_faithful between false, ?_⟩
                  rw [advance_commit hstage hbegun htables]
          | error fault =>
              by_cases hbusy : fault.isBusy = true
              · refine Or.inr
                  ⟨ws.surroundings true, ⟨{}, ws.supply⟩, surroundings_faithful ws true, ?_⟩
                rw [advance_busy hstage hbegun hbusy]
              · left
                refine ⟨fault, ?_⟩
                simp only [advance, hstage, hbegun, hbusy, Bool.false_eq_true, if_false]

end Steps

section Finish

theorem finishCall_done {answer : Except CatalogFault MediaId}
    (hstage : call.stage = .done answer) :
    ws.finishCall store maxRetries call = (answer, ws) := by
  unfold finishCall
  split
  · rename_i found hfound
    obtain rfl : found = answer := by simpa [hstage] using hfound.symm
    rfl
  all_goals
    rename_i hfound
    simp [hstage] at hfound

theorem finishCall_advance (hpending : call.Pending) :
    ws.finishCall store maxRetries call =
      (ws.advance store maxRetries call).2.finishCall store maxRetries
        (ws.advance store maxRetries call).1 := by
  rw [finishCall]
  split
  · rename_i answer hstage
    exact absurd hstage (hpending answer)
  all_goals rfl

end Finish

/-- While workspaces hold a registry in this sense, the database hands over its
catalog and takes back what is left of it, and a call for the path meets the
same surroundings. -/
structure Serves (store : Store) (around : Surroundings) (path : String)
    (Holds : Registry → Workspace → Prop) : Prop where
  read : ∀ {registry ws}, Holds registry ws →
    ∃ between, ws.perform (store.read .files) = (.ok registry.catalog, between) ∧
      Holds registry between
  digest : ∀ {registry ws}, Holds registry ws → ws.digest path = around.digest path
  write : ∀ {registry ws}, Holds registry ws →
    ∃ connection reading between,
      ws.perform store.beginWrite = (.ok (connection, reading), between) ∧
        reading.tables = some registry.catalog ∧ between.supply = registry.supply ∧
        between.present = around.present ∧
        ∀ after : Registry, Holds after
          { (between.perform (connection.finish reading (some after.catalog))).2 with
            supply := after.supply }
  unlocked : around.locked = false

section Serves

variable {around : Surroundings} {Holds : Registry → Workspace → Prop} {registry : Registry}

/-- One step of a call in a workspace that holds a registry. -/
theorem Serves.advance (hserves : Serves store around call.seen.path Holds)
    (hholds : Holds registry ws) (maxRetries : Nat) :
    (ws.advance store maxRetries call).1 = (call.next maxRetries around registry).1 ∧
      Holds (call.next maxRetries around registry).2 (ws.advance store maxRetries call).2 := by
  cases hstage : call.stage with
  | done answer =>
      simp only [Workspace.advance, Call.next, hstage]
      exact ⟨trivial, hholds⟩
  | hash failed =>
      simp only [Workspace.advance, Call.next, hstage, hserves.digest hholds]
      exact ⟨trivial, hholds⟩
  | lookUp failed =>
      obtain ⟨between, hread, hkept⟩ := hserves.read hholds
      simp only [Workspace.advance, Call.next, hstage, hread]
      exact ⟨trivial, hkept⟩
  | commit failed digest =>
      obtain ⟨connection, reading, between, hbegun, htables, hsupply, hpresent, hafter⟩ :=
        hserves.write hholds
      have hnext : call.next maxRetries (between.surroundings false)
          ⟨registry.catalog, between.supply⟩ = call.next maxRetries around registry := by
        simp only [Call.next, hstage, surroundings, hpresent, hsupply, hserves.unlocked]
      rw [advance_commit hstage hbegun htables, hnext]
      exact ⟨rfl, hafter _⟩

/-- A whole call in a workspace that holds a registry. The induction is on the
steps that the call has before it. -/
theorem Serves.finishCall {path : String} (hserves : Serves store around path Holds)
    (hpath : call.seen.path = path) (hholds : Holds registry ws) :
    (ws.finishCall store maxRetries call).1 = (call.run maxRetries around registry).answer ∧
      Holds (call.run maxRetries around registry).registry
        (ws.finishCall store maxRetries call).2 := by
  fun_induction Call.run call maxRetries around registry generalizing ws with
  | case1 call registry answer hstage =>
      rw [finishCall_done hstage]
      exact ⟨rfl, hholds⟩
  | case2 call registry failed hstage ih | case3 call registry failed hstage ih
  | case4 call registry failed digest hstage ih =>
      subst hpath
      obtain ⟨hsame, hkept⟩ := hserves.advance hholds maxRetries
      rw [finishCall_advance (by simp [Call.Pending, hstage]), hsame]
      exact ih (by rw [Call.seen_next]) hkept

end Serves

end MediaCatalog.Workspace
