import MessageApp.Preview

/-! A send whose four writes the server accepts or rejects one by one. No write waits for
another and none is undone, so each takes effect exactly if it is accepted itself. -/
namespace MessageApp

/-- What the server decides about one write, at its own time. -/
structure Settlement where
  write : Write
  time : ℕ
  accepted : Bool

def Settlement.effect (w : Settlement) : Dict := Dict.resolve w.time w.write.data

/-- The store after the writes are settled, in that order. -/
def settle : Store → List Settlement → Store
  | store, [] => store
  | store, w::ws => settle (if w.accepted then store.commit w.time w.write else store) ws

def lastAccepted (ws : List Settlement) (p : DocPath) : Option Dict :=
  (ws.reverse.find? fun w => w.accepted && decide (w.write.path = p)).map Settlement.effect

def acceptedAt (ws : List Settlement) (p : DocPath) : Bool :=
  ws.any fun w => w.accepted && decide (w.write.path = p)

section
variable {store : Store} {ws : List Settlement} {p : DocPath}

theorem lastAccepted_cons (w : Settlement) (ws : List Settlement) (p : DocPath) :
    lastAccepted (w::ws) p =
      (lastAccepted ws p).or (if w.accepted ∧ w.write.path = p then some w.effect else none) := by
  simp only [lastAccepted,List.reverse_cons,List.find?_append,Option.map_or]
  congr 1
  by_cases h : w.accepted ∧ w.write.path = p
  · simp [h]
  · simp [h]

/-- Every path holds the last accepted write at it, or what it held before. -/
theorem lookup_settle (hset : ∀ w ∈ ws, ∃ path data, w.write = .setData path data) (p : DocPath) :
    (settle store ws).lookup p = (lastAccepted ws p).or (store.lookup p) := by
  induction ws generalizing store with
  | nil => rfl
  | cons w ws ih =>
    obtain ⟨path,data,hw⟩ := hset w (by simp)
    obtain ⟨_,time,accepted⟩ := w
    subst hw
    rw [settle,ih fun a ha => hset a (by simp [ha]),lastAccepted_cons,Option.or_assoc]
    congr 1
    cases accepted with
    | false => simp
    | true =>
      by_cases hp : path = p
      · subst hp
        simp [Settlement.effect,Write.path,Write.data]
      · have hne : p ≠ (Write.setData path data).path := fun h => hp h.symm
        have hlookup : (store.commit time (.setData path data)).lookup p = store.lookup p :=
          Store.lookup_commit_of_ne hne
        simpa [Write.path,hp] using hlookup

theorem settle_rejected (h : ∀ w ∈ ws, w.accepted = false) : settle store ws = store := by
  induction ws generalizing store with
  | nil => rfl
  | cons w ws ih =>
    rw [settle,h w (by simp)]
    exact ih fun a ha => h a (by simp [ha])

theorem lastAccepted_isSome (ws : List Settlement) (p : DocPath) :
    (lastAccepted ws p).isSome = acceptedAt ws p := by
  rw [Bool.eq_iff_iff,lastAccepted,acceptedAt,Option.isSome_map,List.find?_isSome,List.any_eq_true]
  simp only [List.mem_reverse]

/-- What an accepted write leaves at its path is what some accepted write of the list leaves. -/
theorem lastAccepted_mem {d : Dict} (h : lastAccepted ws p = some d) :
    ∃ w ∈ ws, w.accepted = true ∧ w.write.path = p ∧ d = w.effect := by
  obtain ⟨w,hw,rfl⟩ := Option.map_eq_some_iff.mp h
  have hq := List.find?_some hw
  simp only [Bool.and_eq_true,decide_eq_true_eq] at hq
  exact ⟨w,List.mem_reverse.mp (List.mem_of_find?_eq_some hw),hq.1,hq.2,rfl⟩

theorem lookup_settle_of_nodup (hset : ∀ w ∈ ws, ∃ path data, w.write = .setData path data)
    (hnodup : (ws.map fun w => w.write.path).Nodup) {w : Settlement} (hw : w ∈ ws) :
    (settle store ws).lookup w.write.path =
      if w.accepted then some w.effect else store.lookup w.write.path := by
  rw [lookup_settle hset]
  cases hd : lastAccepted ws w.write.path with
  | some d =>
    obtain ⟨w',hw',haccepted,hpath,rfl⟩ := lastAccepted_mem hd
    obtain rfl : w' = w := List.inj_on_of_nodup_map hnodup hw' hw hpath
    simp [haccepted]
  | none =>
    have hnot : w.accepted = false := by
      have hnone := lastAccepted_isSome ws w.write.path
      rw [hd,Option.isSome_none,acceptedAt,eq_comm,List.any_eq_false] at hnone
      simpa using hnone w hw
    simp [hnot]

end

section
variable {vc : ChatViewController} {u v texto a b : String} {store : Store} {ws : List Settlement}

/-- The four effects of a send by `u` to `v`: the two copies of the message, each under its own
automatic id, and the two previews, each with the name and photo of the other user. -/
def effects (vc : ChatViewController) (u v texto a b : String) : List (DocPath × Dict) :=
  [(⟨mensagens u v,a⟩,mensagemDict u texto),(⟨mensagens v u,b⟩,mensagemDict u texto),
    (⟨ultimasConversas u,v⟩,
      conversaDict texto u v (vc.nomeContato.getD "") (some (vc.urlFotoContato.getD ""))),
    (⟨ultimasConversas v,u⟩,
      conversaDict texto v u (vc.nomeUsuarioLogado.getD "") vc.urlFotoUsuarioLogado)]

/-- The settled writes are those of one send by `u` to `v`, in any order. -/
def Settles (vc : ChatViewController) (texto a b : String) (ws : List Settlement) : Prop :=
  (ws.map Settlement.write).Perm (vc.actionPushMessage texto a b)

theorem Settles.write_mem (h : Settles vc texto a b ws) {w : Settlement} (hw : w ∈ ws) :
    w.write ∈ vc.actionPushMessage texto a b := h.subset (List.mem_map_of_mem hw)

theorem Settles.writes (hu : vc.idUsuarioLogado = some u) (hv : vc.idContato = some v)
    (h : Settles vc texto a b ws) :
    (ws.map Settlement.write).Perm ((effects vc u v texto a b).map fun e => .setData e.1 e.2) :=
  List.Perm.trans h (List.Perm.of_eq (ChatViewController.actionPushMessage_eq hu hv texto a b))

theorem Settles.setData (hu : vc.idUsuarioLogado = some u) (hv : vc.idContato = some v)
    (h : Settles vc texto a b ws) : ∀ w ∈ ws, ∃ path data, w.write = .setData path data := by
  intro w hw
  have hmem := h.write_mem hw
  rw [ChatViewController.actionPushMessage_eq hu hv] at hmem
  simp only [List.mem_cons,List.not_mem_nil,or_false] at hmem
  rcases hmem with h | h | h | h <;> exact ⟨_,_,h⟩

theorem Settles.paths_nodup (hu : vc.idUsuarioLogado = some u) (hv : vc.idContato = some v)
    (huv : u ≠ v) (h : Settles vc texto a b ws) : (ws.map fun w => w.write.path).Nodup := by
  have hperm := h.map Write.path
  rw [List.map_map,ChatViewController.actionPushMessage_eq hu hv] at hperm
  apply hperm.nodup_iff.mpr
  have hne : ∀ x y z : String, mensagens x y ≠ ultimasConversas z :=
    fun x y z => (ultimasConversas_ne_mensagens z x y).symm
  simp [Write.path,huv,hne]

theorem Settles.preview_eq (hu : vc.idUsuarioLogado = some u) (hv : vc.idContato = some v)
    (h : Settles vc texto a b ws) (x y : String) :
    preview (settle store ws) x y =
      if acceptedAt ws ⟨ultimasConversas x,y⟩ then some texto else preview store x y := by
  rw [preview,lookup_settle (h.setData hu hv),← lastAccepted_isSome]
  cases hd : lastAccepted ws ⟨ultimasConversas x,y⟩ with
  | none => rfl
  | some d =>
    obtain ⟨w,hw,_,hpath,rfl⟩ := lastAccepted_mem hd
    have hmem := h.write_mem hw
    rw [ChatViewController.actionPushMessage_eq hu hv] at hmem
    simp only [List.mem_cons,List.not_mem_nil,or_false] at hmem
    rcases hmem with hw | hw | hw | hw <;> rw [hw] at hpath
    · exact absurd (congrArg DocPath.collection hpath).symm (ultimasConversas_ne_mensagens _ _ _)
    · exact absurd (congrArg DocPath.collection hpath).symm (ultimasConversas_ne_mensagens _ _ _)
    · simp [Settlement.effect,hw,Write.data,Conversa.ofDictionary]
    · simp [Settlement.effect,hw,Write.data,Conversa.ofDictionary]

end

/-- Four writes of a send are settled, and each of them has taken effect exactly if it was
accepted itself: the two copies of the message and the two previews come one by one. -/
theorem send_settled_by_write {vc : ChatViewController} {u v texto a b : String} {store : Store}
    {ws : List Settlement} (hu : vc.idUsuarioLogado = some u) (hv : vc.idContato = some v)
    (settles : Settles vc texto a b ws) :
    (ws.map Settlement.write).Perm ((effects vc u v texto a b).map fun e => .setData e.1 e.2) ∧
    (∀ p, (settle store ws).lookup p = (lastAccepted ws p).or (store.lookup p)) ∧
    (u ≠ v → ∀ e ∈ effects vc u v texto a b,
      ∃ w ∈ ws, w.write = .setData e.1 e.2 ∧ (settle store ws).lookup e.1 =
        if w.accepted then some (Dict.resolve w.time e.2) else store.lookup e.1) ∧
    (u ≠ v → ∀ w ∈ ws, (settle store ws).lookup w.write.path =
      if w.accepted then some w.effect else store.lookup w.write.path) ∧
    ((∀ w ∈ ws, w.accepted = false) → settle store ws = store) ∧
    (∀ p ∈ [DocPath.mk (mensagens u v) a,DocPath.mk (mensagens v u) b], store.lookup p = none →
      ((settle store ws).lookup p).isSome = acceptedAt ws p) ∧
    ∀ x y, preview (settle store ws) x y =
      if acceptedAt ws ⟨ultimasConversas x,y⟩ then some texto else preview store x y := by
  have hset := settles.setData hu hv
  refine ⟨settles.writes hu hv,lookup_settle hset,fun huv e he => ?_,fun huv w hw => ?_,
    settle_rejected,fun p _ hfresh => ?_,settles.preview_eq hu hv⟩
  · have hmem := (settles.writes hu hv).symm.subset (List.mem_map_of_mem he)
    obtain ⟨w,hw,hwrite⟩ := List.mem_map.mp hmem
    have hlookup : (settle store ws).lookup w.write.path = _ :=
      lookup_settle_of_nodup hset (settles.paths_nodup hu hv huv) hw
    have heffect : w.effect = Dict.resolve w.time e.2 := by rw [Settlement.effect,hwrite,Write.data]
    have hpath : w.write.path = e.1 := by rw [hwrite,Write.path]
    rw [hpath,heffect] at hlookup
    exact ⟨w,hw,hwrite,hlookup⟩
  · exact lookup_settle_of_nodup hset (settles.paths_nodup hu hv huv) hw
  · rw [lookup_settle hset,hfresh,Option.or_none,lastAccepted_isSome]

/-- The writes of one send with a verdict each, settled in the order of issue. -/
def sendOiSettled (verdicts : List Bool) : List Settlement :=
  (sendOi.writes.zip verdicts).zipIdx.map fun w => ⟨w.1.1,w.2+1,w.1.2⟩

/-- One accepted message write leaves the message in one box only; one accepted preview
write announces a message that is in no box. -/
theorem send_half_applied :
    (∀ verdicts ∈ [[true,false,false,false],[false,false,true,false]],
      Settles sendOi.vc "oi" "m1" "m2" (sendOiSettled verdicts)) ∧
    (settle ∅ (sendOiSettled [true,false,false,false])).documents (mensagens "u1" "u2") ≠ [] ∧
    (settle ∅ (sendOiSettled [true,false,false,false])).documents (mensagens "u2" "u1") = [] ∧
    preview (settle ∅ (sendOiSettled [false,false,true,false])) "u1" "u2" = some "oi" ∧
    (settle ∅ (sendOiSettled [false,false,true,false])).documents (mensagens "u1" "u2") = [] ∧
    (settle ∅ (sendOiSettled [false,false,true,false])).documents (mensagens "u2" "u1") = [] := by
  refine ⟨?_,by decide,by decide,by decide,by decide,by decide⟩
  intro verdicts hv
  rcases List.mem_pair.mp hv with rfl | rfl <;> exact List.Perm.refl _

theorem send_settled_by_write_oi :
    Settles sendOi.vc "oi" "m1" "m2" (sendOiSettled [true,false,false,true]) ∧
    (∀ e ∈ effects sendOi.vc "u1" "u2" "oi" "m1" "m2",
      ∃ w ∈ sendOiSettled [true,false,false,true], w.write = .setData e.1 e.2 ∧
        (settle ∅ (sendOiSettled [true,false,false,true])).lookup e.1 =
          if w.accepted then some (Dict.resolve w.time e.2) else none) ∧
    preview (settle ∅ (sendOiSettled [true,false,false,true])) "u2" "u1" = some "oi" := by
  have hsettles : Settles sendOi.vc "oi" "m1" "m2" (sendOiSettled [true,false,false,true]) :=
    List.Perm.refl _
  have h := @send_settled_by_write sendOi.vc "u1" "u2" "oi" "m1" "m2" ∅ _ rfl rfl hsettles
  exact ⟨hsettles,h.2.2.1 (by decide),h.2.2.2.2.2.2 "u2" "u1"⟩

end MessageApp
