import MediaCatalog.Proofs.Identity.Upkeep
import MediaCatalog.Proofs.Workspace.Served

/-!
Upkeep in a workspace that hosts a registry. Marks and tags are written as one
transaction each, on the tables in the database; a transaction that fails leaves
them as they were.
-/

namespace MediaCatalog.Workspace

variable {catalog : Catalog} {modified now : Int} {rest : List Entry} {here : Path}
  {registry : Registry} {ws : Workspace}

theorem perform_finish_none (hrest : Apart rest)
    (hdisk : ws.disk = opened catalog modified ws.clock rest) :
    ws.perform (connection.finish { tables := some catalog, logged := true } none) =
      (.ok ⟨⟩, { ws with disk := diskWith catalog modified rest }) := by
  have hleft : (opened catalog modified ws.clock rest).perform
      ((Connection.file [databaseName] {}).leave true) = _ := perform_leave hrest
  simp [Connection.finish, Connection.endWrite, connection, perform_onDisk, hdisk, hleft]

/-- A transaction answers what its change does, and leaves the tables that the
change leaves, or those that were there if it fails. -/
theorem Hosts.write {α : Type} (hrest : Apart rest) (hhosts : Hosts here now rest registry ws)
    (bare : Except CatalogFault α)
    (change : Catalog → Except CatalogFault (α × Catalog)) :
    let outcome := change registry.catalog
    (ws.perform (store.write bare change)).1 = outcome.map Prod.fst ∧
      Hosts here now rest
        (registry.withCatalog ((outcome.map Prod.snd).toOption.getD registry.catalog))
        (ws.perform (store.write bare change)).2 := by
  intro outcome
  obtain ⟨modified, hdisk⟩ := hhosts.disk
  have hbegun := perform_storeBeginWrite hrest hdisk
  let busy : Workspace := { ws with disk := opened registry.catalog modified ws.clock rest }
  cases houtcome : change registry.catalog with
  | ok result =>
      have hended : busy.perform (connection.finish
          { tables := some registry.catalog, logged := true } (some result.2)) = _ :=
        perform_finish hrest rfl result.2
      have hwritten : ws.perform (store.write bare change) =
          (.ok result.1, { ws with disk := diskWith result.2 ws.clock rest }) := by
        simp [Store.write, hbegun, houtcome, hended, busy]
      rw [hwritten]
      have hanswer : outcome = .ok result := houtcome
      rw [hanswer]
      exact ⟨rfl, ⟨_, rfl⟩, hhosts.here, hhosts.supply, hhosts.clock⟩
  | error fault =>
      have hended : busy.perform (connection.finish
          { tables := some registry.catalog, logged := true } none) = _ :=
        perform_finish_none hrest rfl
      have hwritten : ws.perform (store.write bare change) =
          (.error fault, { ws with disk := diskWith registry.catalog modified rest }) := by
        simp [Store.write, hbegun, houtcome, hended, busy]
      rw [hwritten]
      have hanswer : outcome = .error fault := houtcome
      rw [hanswer]
      exact ⟨rfl, ⟨_, rfl⟩, hhosts.here, hhosts.supply, hhosts.clock⟩

section Upkeep

open Library (Upkeep)

variable (hrest : Apart rest) (hhosts : Hosts here now rest registry ws)

include hrest hhosts

theorem Hosts.mergeTag (tag : TagWrite) :
    (ws.perform (store.mergeTag tag)).1 =
        ((registry.catalog.mergeTag tag).mapError .ofWrite).map Prod.fst ∧
      Hosts here now rest
        (registry.withCatalog ((Upkeep.tag tag).done ws.present registry.catalog))
        (ws.perform (store.mergeTag tag)).2 := by
  obtain ⟨hanswer, hleft⟩ := hhosts.write hrest (.error (.database (.noTable .tags)))
    fun catalog => (catalog.mergeTag tag).mapError .ofWrite
  refine ⟨hanswer, ?_⟩
  simp only [Upkeep.done]
  cases hmerged : registry.catalog.mergeTag tag with
  | ok result =>
      rw [hmerged] at hleft
      exact hleft
  | error fault =>
      rw [hmerged] at hleft
      exact hleft

theorem Hosts.fileGone {path : Path} {key : String} (hkey : ws.key path = .ok key) :
    (ws.perform (store.fileGone path)).1 = .ok (registry.catalog.setMissing key true).1 ∧
      Hosts here now rest
        (registry.withCatalog ((Upkeep.fileGone key).done ws.present registry.catalog))
        (ws.perform (store.fileGone path)).2 := by
  have hwritten := hhosts.write hrest (.error (.database (.noTable .files)))
    fun catalog => .ok (catalog.setMissing key true)
  have hdeed : ws.perform (store.fileGone path) =
      ws.perform (store.write (.error (.database (.noTable .files))) fun catalog =>
        .ok (catalog.setMissing key true)) := by
    simp [Store.fileGone, hkey]
  rw [hdeed]
  exact hwritten

theorem Hosts.markMissing :
    (ws.perform store.markMissing).1 = .ok (registry.catalog.markMissing ws.present).1 ∧
      Hosts here now rest
        (registry.withCatalog (Upkeep.markMissing.done ws.present registry.catalog))
        (ws.perform store.markMissing).2 := by
  obtain ⟨modified, hdisk⟩ := hhosts.disk
  have hread : ws.perform (store.read .files) = (.ok registry.catalog, ws) :=
    perform_storeRead hrest hdisk .files
  simp only [Store.markMissing, perform_bind, hread, perform_get]
  cases hgone : registry.catalog.gonePaths ws.present with
  | nil =>
      have hnone : registry.catalog.markMissing ws.present = (0, registry.catalog) := by
        rw [Catalog.markMissing, hgone]
        rfl
      rw [Upkeep.done, hnone]
      exact ⟨rfl, hhosts⟩
  | cons path paths =>
      have hwritten := hhosts.write hrest (.error (.database (.noTable .files)))
        fun catalog => .ok (catalog.markAll (path :: paths))
      rw [Upkeep.done, Catalog.markMissing, hgone]
      exact hwritten

end Upkeep

end MediaCatalog.Workspace
