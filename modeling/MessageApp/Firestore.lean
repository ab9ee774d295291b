import MessageApp.Documents
import MessageApp.KeyedLog
import Mathlib.Data.List.Sort

/-! The document store behind the app: document paths, the writes a client can issue,
their effect when the server commits them, and the queries the screens run. -/
namespace MessageApp

structure DocPath where
  collection : List String
  id : String
  deriving DecidableEq

def usuarios : List String := ["usuarios"]

def contatos (idUsuario : String) : List String := ["usuarios",idUsuario,"contatos"]

def ultimasConversas (idRemetente : String) : List String :=
  ["conversas",idRemetente,"ultimas_conversas"]

def mensagens (idRemetente idDestinatario : String) : List String :=
  ["mensagens",idRemetente,idDestinatario]

@[simp] theorem ultimasConversas_inj {u v : String} :
    ultimasConversas u = ultimasConversas v ↔ u = v := by
  simp [ultimasConversas]
@[simp] theorem mensagens_inj {u v x y : String} :
    mensagens u v = mensagens x y ↔ u = x ∧ v = y := by
  simp [mensagens]
@[simp] theorem ultimasConversas_ne_mensagens (u v w : String) :
    ultimasConversas u ≠ mensagens v w := by
  simp [ultimasConversas,mensagens]

inductive Write
  | setData (path : DocPath) (data : Dict)
  | updateData (path : DocPath) (data : Dict)

namespace Write

def path : Write → DocPath
  | .setData p _ => p
  | .updateData p _ => p

def data : Write → Dict
  | .setData _ data => data
  | .updateData _ data => data

/-- `addDocument` is a `setData` on an automatic id. -/
def addDocument (collection : List String) (autoId : String) (data : Dict) : Write :=
  .setData ⟨collection,autoId⟩ data

end Write

abbrev Store := KeyedLog.Table DocPath Dict

abbrev Snapshot := List (String × Dict)

namespace Store

/-- The effect of one accepted write; an update of a missing document fails. -/
def commit (now : ℕ) (store : Store) : Write → Store
  | .setData p data => store.insert p (Dict.resolve now data)
  | .updateData p data =>
    match store.lookup p with
    | none => store
    | some old => store.insert p (Dict.merge old (Dict.resolve now data))

/-- A collection is listed by document id. -/
def documents (store : Store) (collection : List String) : Snapshot :=
  ((store.entries.filter fun e => e.1.collection = collection).map
    fun e => (e.1.id,e.2)).insertionSort fun a b => a.1 ≤ b.1

theorem documents_perm (store : Store) (collection : List String) :
    (store.documents collection).Perm
      ((store.entries.filter fun e => e.1.collection = collection).map fun e => (e.1.id,e.2)) :=
  List.perm_insertionSort _ _

@[simp] theorem lookup_commit_setData (store : Store) (now : ℕ) (p : DocPath) (data : Dict) :
    (store.commit now (.setData p data)).lookup p = some (Dict.resolve now data) :=
  AList.lookup_insert store

theorem lookup_commit_of_ne {store : Store} {now : ℕ} {w : Write} {p : DocPath}
    (h : p ≠ w.path) : (store.commit now w).lookup p = store.lookup p := by
  cases w with
  | setData q data => exact AList.lookup_insert_ne h
  | updateData q data =>
    simp only [commit]
    split
    · rfl
    · exact AList.lookup_insert_ne h

theorem documents_commit_of_ne {store : Store} {now : ℕ} {w : Write} {collection : List String}
    (h : w.path.collection ≠ collection) :
    (store.commit now w).documents collection = store.documents collection := by
  have hfilter : ∀ d, documents (store.insert w.path d) collection = store.documents collection := by
    intro d
    have hkerase := KeyedLog.filter_kerase (fun p : DocPath => decide (p.collection = collection))
      (k := w.path) (by simpa using h) store.entries
    simp only [documents,AList.entries_insert,List.filter_cons,h,decide_false,Bool.false_eq_true,
      if_false,hkerase]
  cases w with
  | setData p data => exact hfilter _
  | updateData p data =>
    simp only [commit]
    split
    · rfl
    · exact hfilter _

theorem mem_documents {store : Store} {collection : List String} {id : String} {d : Dict} :
    (id,d) ∈ store.documents collection ↔ store.lookup ⟨collection,id⟩ = some d := by
  have hlookup : store.lookup ⟨collection,id⟩ = some d ↔
      (⟨⟨collection,id⟩,d⟩ : Sigma fun _ : DocPath => Dict) ∈ store.entries :=
    AList.mem_lookup_iff
  rw [hlookup,(documents_perm store collection).mem_iff]
  simp only [List.mem_map,List.mem_filter,decide_eq_true_eq,Prod.mk.injEq]
  constructor
  · rintro ⟨⟨⟨c,i⟩,e⟩,⟨hmem,rfl⟩,rfl,rfl⟩
    exact hmem
  · intro hmem
    exact ⟨_,⟨hmem,rfl⟩,rfl,rfl⟩

end Store

namespace Snapshot

/-- `whereField(field, isEqualTo: value)` compares strings exactly. -/
def whereField (docs : Snapshot) (field value : String) : Snapshot :=
  docs.filter fun d => d.2 field = some (.string value)

def time (field : String) (d : String × Dict) : ℕ :=
  ((d.2 field).bind Value.asTimestamp).getD 0

/-- `order(by: field, descending: true)`; documents without the field are left out. -/
def orderByDescending (docs : Snapshot) (field : String) : Snapshot :=
  (docs.filter fun d => (d.2 field).isSome).insertionSort fun a b => time field b ≤ time field a

theorem mem_of_orderByDescending {docs : Snapshot} {field : String} {d : String × Dict}
    (h : d ∈ docs.orderByDescending field) : d ∈ docs :=
  List.mem_of_mem_filter ((List.mem_insertionSort _).mp h)

/-- Where all times differ the order of the query does not depend on that of the listing. -/
theorem orderByDescending_of_perm {docs sorted : Snapshot} {field : String}
    (hperm : docs.Perm sorted) (hfield : ∀ d ∈ sorted, (d.2 field).isSome)
    (hsorted : sorted.Pairwise fun a b => time field b < time field a) :
    orderByDescending docs field = sorted := by
  have hall : docs.filter (fun d => (d.2 field).isSome) = docs :=
    List.filter_eq_self.mpr fun d hd => hfield d (hperm.subset hd)
  have hnodup : (sorted.map (time field)).Nodup := by
    refine List.pairwise_map.mpr (hsorted.imp fun hab => ?_)
    exact hab.ne'
  have hsort := List.perm_insertionSort (fun a b => time field b ≤ time field a) docs
  rw [orderByDescending,hall]
  refine List.Perm.eq_of_pairwise (fun a b ha hb hab hba => ?_) (List.pairwise_insertionSort _ docs)
    (hsorted.imp fun hab => hab.le) (hsort.trans hperm)
  have ha' := hperm.subset ((List.mem_insertionSort _).mp ha)
  exact List.inj_on_of_nodup_map hnodup ha' hb (le_antisymm hba hab)

end Snapshot
end MessageApp
