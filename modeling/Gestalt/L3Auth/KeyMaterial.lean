import Gestalt.Core.Base64
import Gestalt.Core.Json
import Gestalt.Core.LTS
import Gestalt.Core.Procs

/-!
# auth-service: the signing key on its volume

`KeyMaterial()` runs when a process of auth-service imports `app.keys`: it looks for the
two PEM files, writes them if one is missing, and reads them back. A process is cut at
its operations on the files, may crash between any two, and keeps what it has read for
as long as it lives. A crash after `open(path, "wb")` leaves an empty file. `replace` is
somebody else at the volume: another writer, or an operator.

`cryptography` and `hashlib` are a parameter (`Crypto`). A `write` is whole.

* `System.key_stable`: where processes start one at a time and nobody else writes to the
  volume, every process there ever was has the same private key, public PEM and kid, also
  after crashes within `_generate`, and no process fails to start.
-/
namespace Gestalt.Auth

open Base64 (Bytes)

/-- mirrors services/auth-service/app/keys.py:57 -/
structure PublicNumbers where
  n : Nat
  e : Nat
  deriving DecidableEq, Repr

/-- `cryptography` and `hashlib`, as far as `keys.py` uses them. -/
structure Crypto (Priv : Type) where
  /-- `private_bytes` in PKCS8 and `public_key().public_bytes` in SubjectPublicKeyInfo, both as PEM -/
  privateBytes : Priv → Bytes
  publicBytes : Priv → Bytes
  /-- `load_pem_private_key`; `none`: it raises -/
  loadPemPrivateKey : Bytes → Option Priv
  /-- `public_key().public_numbers()` -/
  publicNumbers : Priv → PublicNumbers
  /-- `sha256(data).hexdigest()` -/
  hexdigest : Bytes → String

/-- What is relied on. -/
structure Crypto.Works {Priv : Type} (c : Crypto Priv) : Prop where
  load_privateBytes : ∀ key, c.loadPemPrivateKey (c.privateBytes key) = some key
  hexdigest_length : ∀ data, (c.hexdigest data).length = 64

variable {Priv : Type}

/-- mirrors services/auth-service/app/keys.py:42-54 -/
structure KeyMaterial (Priv : Type) where
  privatePem : Bytes
  publicPem : Bytes
  privateKey : Priv
  kid : String
  deriving DecidableEq

/-- The two files; `none`: there is no such file. -/
structure Files where
  privatePem : Option Bytes := none
  publicPem : Option Bytes := none
  deriving DecidableEq, Repr

namespace KeyMaterial

variable (c : Crypto Priv)

/-- `none`: the private PEM is refused.
mirrors services/auth-service/app/keys.py:52-54 -/
def load (privatePem publicPem : Bytes) : Option (KeyMaterial Priv) :=
  (c.loadPemPrivateKey privatePem).map fun privateKey =>
    { privatePem, publicPem, privateKey, kid := String.ofList ((c.hexdigest publicPem).toList.take 16) }

/-- mirrors services/auth-service/app/keys.py:53 -/
def publicNumbers (km : KeyMaterial Priv) : PublicNumbers := c.publicNumbers km.privateKey

/-- mirrors services/auth-service/app/keys.py:38-39 -/
def b64url (data : Bytes) : String := String.ofList (Base64.encode data)

def toBytes (n : Nat) : Bytes := Base64.toBytes n (Base64.byteLength n)

/-- mirrors services/auth-service/app/keys.py:56-71 -/
def jwks (km : KeyMaterial Priv) : Json :=
  .obj [("keys", .arr [.obj
    [("kty", .str "RSA"), ("use", .str "sig"), ("alg", .str "RS256"), ("kid", .str km.kid),
      ("n", .str (b64url (toBytes (km.publicNumbers c).n))),
      ("e", .str (b64url (toBytes (km.publicNumbers c).e)))]])]

/-- The files it has been read from. -/
def files (km : KeyMaterial Priv) : Files := ⟨some km.privatePem, some km.publicPem⟩

end KeyMaterial

/-! ## A process that starts -/

namespace Keys

/-- Where `KeyMaterial()` is, by its next operation. -/
inductive Pc (Priv : Type)
  | existsPrivate
  | existsPublic
  | openPrivate (key : Priv)
  | writePrivate (key : Priv)
  | openPublic (key : Priv)
  | writePublic (key : Priv)
  | readPrivate
  | readPublic (privatePem : Bytes)
  | ready (km : KeyMaterial Priv)
  /-- the import has failed -/
  | raised

/-- `drawn` is what `generate_private_key` returns.
mirrors services/auth-service/app/keys.py:20-35 and :44-54 -/
def step (c : Crypto Priv) (drawn : Priv) (files : Files) : Pc Priv → Option (Files × Pc Priv)
  | .existsPrivate =>
    some (files, if files.privatePem.isSome then .existsPublic else .openPrivate drawn)
  | .existsPublic => some (files, if files.publicPem.isSome then .readPrivate else .openPrivate drawn)
  | .openPrivate key => some ({ files with privatePem := some [] }, .writePrivate key)
  | .writePrivate key => some ({ files with privatePem := some (c.privateBytes key) }, .openPublic key)
  | .openPublic key => some ({ files with publicPem := some [] }, .writePublic key)
  | .writePublic key => some ({ files with publicPem := some (c.publicBytes key) }, .readPrivate)
  | .readPrivate => some (files, files.privatePem.elim .raised .readPublic)
  | .readPublic privatePem =>
    some (files, (files.publicPem.bind (KeyMaterial.load c privatePem)).elim .raised .ready)
  | .ready _ => none
  | .raised => none

structure Proc (Priv : Type) where
  pc : Pc Priv := .existsPrivate
  alive : Bool := true

def Proc.ready (x : Proc Priv) : Option (KeyMaterial Priv) :=
  match x.pc with
  | .ready km => some km
  | _ => none

/-- It has not loaded its keys yet. -/
def Proc.starts (x : Proc Priv) : Option Unit :=
  match x.pc with
  | .ready _ | .raised => none
  | _ => if x.alive then some () else none

structure System (Priv : Type) where
  files : Files
  procs : List (Proc Priv) := []

inductive Lbl (Priv : Type)
  | start
  | next (i : Nat) (drawn : Priv)
  | crash (i : Nat)
  | replace (files : Files)

namespace System

variable (c : Crypto Priv)

def step (s : System Priv) : Lbl Priv → Option (System Priv)
  | .start => some { s with procs := s.procs ++ [{}] }
  | .next i drawn =>
    match s.procs[i]? with
    | some x =>
      if x.alive then
        (Keys.step c drawn s.files x.pc).map fun r =>
          { files := r.1, procs := s.procs.set i { x with pc := r.2 } }
      else none
    | none => none
  | .crash i =>
    match s.procs[i]? with
    | some x => some { s with procs := s.procs.set i { x with alive := false } }
    | none => none
  | .replace files => some { s with files }

/-- Where there is a public PEM, the private one can be loaded; so of an empty volume. -/
def Loadable (files : Files) : Prop :=
  files.publicPem ≠ none → ∃ b key, files.privatePem = some b ∧ c.loadPemPrivateKey b = some key

def init (s : System Priv) : Prop := s.procs = [] ∧ Loadable c s.files

def lts : LTS (System Priv) (Lbl Priv) := LTS.ofFn (init c) (step c)

/-- A process starts when no other is starting, and nobody else writes to the volume. -/
def Alone (s : System Priv) : Lbl Priv → Prop
  | .start => ∀ x ∈ s.procs, x.starts = none
  | .replace _ => False
  | _ => True

end System

/-! ## What the files are while a process starts -/

/-- What a process knows of the files, from what it has found and done. -/
def Pc.Knows (c : Crypto Priv) (files : Files) : Pc Priv → Prop
  | .existsPrivate | .existsPublic => True
  | .openPrivate _ | .writePrivate _ => files.publicPem = none
  | .openPublic key => files.publicPem = none ∧ files.privatePem = some (c.privateBytes key)
  | .writePublic key => files.privatePem = some (c.privateBytes key)
  | .readPrivate => files.publicPem ≠ none
  | .readPublic privatePem => files.publicPem ≠ none ∧ files.privatePem = some privatePem
  | .ready km => files = km.files ∧ KeyMaterial.load c km.privatePem km.publicPem = some km
  | .raised => False

variable {c : Crypto Priv} {files files' : Files} {drawn : Priv} {pc pc' : Pc Priv}

/-- An operation keeps the files loadable, and what the process knows true. -/
theorem step_knows (hc : c.Works) (h : step c drawn files pc = some (files', pc'))
    (hk : pc.Knows c files) (hl : System.Loadable c files) :
    pc'.Knows c files' ∧ System.Loadable c files' := by
  cases pc <;> simp only [step, Option.some.injEq, Prod.mk.injEq, reduceCtorEq] at h <;>
    obtain ⟨rfl, rfl⟩ := h
  case existsPrivate =>
    cases hp : files.privatePem with
    | some b => exact ⟨trivial, hl⟩
    | none =>
      -- without a private PEM there is no public one
      have hpub : files.publicPem = none := by
        by_contra hne
        obtain ⟨b, key, hb, -⟩ := hl hne
        rw [hp] at hb
        cases hb
      exact ⟨by simp [Pc.Knows, hpub], hl⟩
  case existsPublic =>
    cases hp : files.publicPem with
    | some b => exact ⟨by simp [Pc.Knows, hp], hl⟩
    | none => exact ⟨by simp [Pc.Knows, hp], hl⟩
  case openPrivate key => exact ⟨hk, fun hne => absurd hk hne⟩
  case writePrivate key => exact ⟨⟨hk, rfl⟩, fun hne => absurd hk hne⟩
  case openPublic key => exact ⟨hk.2, fun _ => ⟨_, key, hk.2, hc.load_privateBytes key⟩⟩
  case writePublic key =>
    exact ⟨Option.some_ne_none _, fun _ => ⟨_, key, hk, hc.load_privateBytes key⟩⟩
  case readPrivate =>
    obtain ⟨b, key, hb, -⟩ := hl hk
    rw [hb]
    exact ⟨⟨hk, hb⟩, hl⟩
  case readPublic privatePem =>
    obtain ⟨hpub, hpriv⟩ := hk
    obtain ⟨b, key, hb, hload⟩ := hl hpub
    obtain ⟨p, hp⟩ := Option.ne_none_iff_exists'.mp hpub
    obtain rfl : privatePem = b := Option.some.inj (hpriv.symm.trans hb)
    have hkm : KeyMaterial.load c privatePem p = some
        ⟨privatePem, p, key, String.ofList ((c.hexdigest p).toList.take 16)⟩ := by
      simp [KeyMaterial.load, hload]
    rw [hp, Option.bind_some, hkm]
    exact ⟨⟨by rw [KeyMaterial.files, ← hb, ← hp], hkm⟩, hl⟩

/-- It opens or writes one of the files. -/
def Pc.writes : Pc Priv → Bool
  | .openPrivate _ | .writePrivate _ | .openPublic _ | .writePublic _ => true
  | _ => false

theorem step_files (h : step c drawn files pc = some (files', pc')) (hw : pc.writes = false) :
    files' = files := by
  cases pc <;> simp only [step, Option.some.injEq, Prod.mk.injEq, reduceCtorEq] at h <;>
    first | exact h.1.symm | cases hw

theorem step_writes (h : step c drawn files pc = some (files', pc')) (hw : pc'.writes = true) :
    pc.writes = true ∨ files.privatePem = none ∨ files.publicPem = none := by
  cases pc <;> simp only [step, Option.some.injEq, Prod.mk.injEq, reduceCtorEq] at h <;>
    obtain ⟨-, rfl⟩ := h
  case existsPrivate =>
    cases hp : files.privatePem with
    | some b => simp [hp, Pc.writes] at hw
    | none => exact .inr (.inl rfl)
  case existsPublic =>
    cases hp : files.publicPem with
    | some b => simp [hp, Pc.writes] at hw
    | none => exact .inr (.inr rfl)
  case readPrivate => cases hp : files.privatePem <;> simp [hp, Pc.writes] at hw
  case readPublic privatePem =>
    cases hp : files.publicPem.bind (KeyMaterial.load c privatePem) <;> simp [hp, Pc.writes] at hw
  all_goals exact .inl rfl

theorem step_starts (h : step c drawn files pc = some (files', pc')) :
    (⟨pc, true⟩ : Proc Priv).starts = some () := by
  cases pc <;> simp only [step, reduceCtorEq] at h <;> rfl

theorem Proc.pc_of_ready {x : Proc Priv} {km : KeyMaterial Priv} (h : x.ready = some km) :
    x.pc = .ready km := by
  unfold Proc.ready at h
  split at h
  · rename_i hpc
    rw [hpc, Option.some.inj h]
  · cases h

/-! ## One key -/

namespace System

/-- The files are what every process knows them to be. -/
structure Settled (c : Crypto Priv) (s : System Priv) : Prop where
  loadable : Loadable c s.files
  sole : Procs.Sole Proc.starts s.procs
  knows : ∀ x ∈ s.procs, x.alive = true → x.pc.Knows c s.files
  ready : ∀ x ∈ s.procs, ∀ km, x.ready = some km → x.pc.Knows c s.files
  /-- who writes has found a file missing, so that nobody has read them -/
  written : ∀ x ∈ s.procs, x.alive = true → x.pc.writes = true → ∀ y ∈ s.procs, y.ready = none
  raised : ∀ x ∈ s.procs, x.pc ≠ .raised

variable {s s' : System Priv} {l : Lbl Priv}

theorem settled_start (hI : Settled c s) (ha : ∀ x ∈ s.procs, x.starts = none) :
    Settled c { s with procs := s.procs ++ [{}] } := by
  have hmem {x : Proc Priv} (hx : x ∈ s.procs ++ [({} : Proc Priv)]) : x ∈ s.procs ∨ x = {} := by
    simpa using hx
  refine ⟨hI.loadable, ?_, fun x hx hal => ?_, fun x hx km hr => ?_, fun x hx hal hw y hy => ?_,
    fun x hx => ?_⟩
  · -- nobody else is starting
    intro i j a b k ha' hb' hfa hfb
    rcases Procs.spawn_cases ha' with ha' | ⟨rfl, rfl⟩
    · rw [ha a (List.mem_of_getElem? ha')] at hfa
      cases hfa
    · rcases Procs.spawn_cases hb' with hb' | ⟨rfl, -⟩
      · rw [ha b (List.mem_of_getElem? hb')] at hfb
        cases hfb
      · rfl
  · rcases hmem hx with hx | rfl
    · exact hI.knows x hx hal
    · trivial
  · rcases hmem hx with hx | rfl
    · exact hI.ready x hx km hr
    · cases hr
  · rcases hmem hx with hx | rfl
    · rcases hmem hy with hy | rfl
      · exact hI.written x hx hal hw y hy
      · rfl
    · cases hw
  · rcases hmem hx with hx | rfl
    · exact hI.raised x hx
    · exact nofun

theorem settled_crash {i : Nat} {x : Proc Priv} (hI : Settled c s) (hx : s.procs[i]? = some x) :
    Settled c { s with procs := s.procs.set i { x with alive := false } } := by
  have hx' := List.mem_of_getElem? hx
  have hmem {y : Proc Priv} (hy : y ∈ s.procs.set i { x with alive := false }) :
      y ∈ s.procs ∨ y = { x with alive := false } := List.mem_or_eq_of_mem_set hy
  refine ⟨hI.loadable, hI.sole.set hx fun k hk => ?_, fun y hy hal => ?_, fun y hy km hr => ?_,
    fun y hy hal hw z hz => ?_, fun y hy => ?_⟩
  · simp only [Proc.starts] at hk
    split at hk <;> simp at hk
  · rcases hmem hy with hy | rfl
    · exact hI.knows y hy hal
    · cases hal
  · rcases hmem hy with hy | rfl
    · exact hI.ready y hy km hr
    · exact hI.ready x hx' km hr
  · rcases hmem hy with hy | rfl
    · rcases hmem hz with hz | rfl
      · exact hI.written y hy hal hw z hz
      · exact hI.written y hy hal hw x hx'
    · cases hal
  · rcases hmem hy with hy | rfl
    · exact hI.raised y hy
    · exact hI.raised x hx'

/-- Another process that lives has loaded its keys. -/
theorem settled_other (hI : Settled c s) {i j : Nat} {x y : Proc Priv} (hx : s.procs[i]? = some x)
    (hs : x.starts = some ()) (hy : s.procs[j]? = some y) (hji : j ≠ i) (hal : y.alive = true) :
    ∃ km, y.ready = some km := by
  have hys : y.starts ≠ some () := fun h => hji (hI.sole j i y x () hy hx h hs)
  have hr := hI.raised y (List.mem_of_getElem? hy)
  obtain ⟨pc, alive⟩ := y
  obtain rfl : alive = true := hal
  cases pc with
  | ready km => exact ⟨km, rfl⟩
  | raised => exact absurd rfl hr
  | _ => exact absurd rfl hys

theorem settled_next (hc : c.Works) {i : Nat} {drawn : Priv} {x : Proc Priv} {files' : Files}
    {pc' : Pc Priv} (hI : Settled c s) (hx : s.procs[i]? = some x) (hal : x.alive = true)
    (hst : Keys.step c drawn s.files x.pc = some (files', pc')) :
    Settled c { files := files', procs := s.procs.set i { x with pc := pc' } } := by
  have hx' := List.mem_of_getElem? hx
  obtain ⟨pc, alive⟩ := x
  obtain rfl : alive = true := hal
  have hstarts : (⟨pc, true⟩ : Proc Priv).starts = some () := step_starts hst
  have hxr : (⟨pc, true⟩ : Proc Priv).ready = none := by
    cases pc <;> first | rfl | cases hst
  obtain ⟨hknows, hload⟩ := step_knows hc hst (hI.knows _ hx' rfl) hI.loadable
  -- the files change only while nobody is ready
  have hfiles : ∀ y ∈ s.procs, ∀ km, y.ready = some km → files' = s.files := by
    intro y hy km hr
    refine step_files hst ?_
    by_contra hw
    rw [hI.written _ hx' rfl (by simpa using hw) y hy] at hr
    cases hr
  have hcases {y : Proc Priv} (hy : y ∈ s.procs.set i ⟨pc', true⟩) :
      y = ⟨pc', true⟩ ∨ ∃ j, j ≠ i ∧ s.procs[j]? = some y := by
    obtain ⟨j, hj⟩ := List.mem_iff_getElem?.mp hy
    rcases Procs.set_cases hx hj with ⟨-, rfl⟩ | ⟨hji, hj⟩
    · exact .inl rfl
    · exact .inr ⟨j, hji, hj⟩
  have hready : ∀ y ∈ s.procs, ∀ km, y.ready = some km → y.pc.Knows c files' := by
    intro y hy km hr
    rw [hfiles y hy km hr]
    exact hI.ready y hy km hr
  refine ⟨hload, hI.sole.set hx fun k _ => .inl hstarts, fun y hy hya => ?_, fun y hy km hr => ?_,
    fun y hy hya hw z hz => ?_, fun y hy => ?_⟩
  · rcases hcases hy with rfl | ⟨j, hji, hj⟩
    · exact hknows
    · obtain ⟨km, hr⟩ := settled_other hI hx hstarts hj hji hya
      exact hready y (List.mem_of_getElem? hj) km hr
  · rcases hcases hy with rfl | ⟨j, hji, hj⟩
    · exact hknows
    · exact hready y (List.mem_of_getElem? hj) km hr
  · rcases hcases hy with rfl | ⟨j, hji, hj⟩
    · -- the process itself: it wrote before, or finds a file missing
      have hnone : ∀ z ∈ s.procs, z.ready = none := by
        rcases step_writes hst hw with hw | hmiss
        · exact hI.written _ hx' rfl hw
        · intro z hz
          by_contra hne
          obtain ⟨km, hr⟩ := Option.ne_none_iff_exists'.mp hne
          have hzk := hI.ready z hz km hr
          rw [Proc.pc_of_ready hr] at hzk
          rw [hzk.1] at hmiss
          simp [KeyMaterial.files] at hmiss
      rcases hcases hz with rfl | ⟨k, -, hk⟩
      · cases pc' <;> first | rfl | cases hw
      · exact hnone z (List.mem_of_getElem? hk)
    · obtain ⟨km, hr⟩ := settled_other hI hx hstarts hj hji hya
      rw [Proc.pc_of_ready hr] at hw
      cases hw
  · rcases hcases hy with rfl | ⟨j, -, hj⟩
    · rintro rfl
      exact hknows
    · exact hI.raised y (List.mem_of_getElem? hj)

theorem settled_step (hc : c.Works) (hI : Settled c s) (h : s.step c l = some s') (ha : Alone s l) :
    Settled c s' := by
  cases l with
  | start =>
    obtain rfl := Option.some.inj h
    exact settled_start hI ha
  | next i drawn =>
    simp only [step] at h
    split at h
    · rename_i x hx
      split at h
      · rename_i hal
        obtain ⟨⟨files', pc'⟩, hst, rfl⟩ := Option.map_eq_some_iff.mp h
        exact settled_next hc hI hx hal hst
      · cases h
    · cases h
  | crash i =>
    simp only [step] at h
    split at h
    · rename_i x hx
      obtain rfl := Option.some.inj h
      exact settled_crash hI hx
    · cases h
  | replace files => exact ha.elim

theorem settled (hc : c.Works) (h : ((lts c).restrict Alone).Reachable s) : Settled c s := by
  refine LTS.reachable_induct (I := Settled c) ?_ ?_ h
  · rintro s ⟨h0, hl⟩
    refine ⟨hl, by rw [h0]; exact .nil, ?_, ?_, ?_, ?_⟩ <;> simp [h0]
  · intro s l s' _ hI hst
    exact settled_step hc hI hst.1 hst.2

/-- What a process has loaded is what the files still hold. -/
theorem ready_files (hc : c.Works) (h : ((lts c).restrict Alone).Reachable s) {x : Proc Priv}
    (hx : x ∈ s.procs) {km : KeyMaterial Priv} (hr : x.ready = some km) :
    s.files = km.files ∧ KeyMaterial.load c km.privatePem km.publicPem = some km := by
  have hk := (settled hc h).ready x hx km hr
  rwa [Proc.pc_of_ready hr] at hk

theorem ready_eq (hc : c.Works) (h : ((lts c).restrict Alone).Reachable s) {x y : Proc Priv}
    (hx : x ∈ s.procs) (hy : y ∈ s.procs) {km km' : KeyMaterial Priv} (hr : x.ready = some km)
    (hr' : y.ready = some km') : km = km' := by
  obtain ⟨hf, hl⟩ := ready_files hc h hx hr
  obtain ⟨hf', hl'⟩ := ready_files hc h hy hr'
  obtain ⟨hpriv, hpub⟩ : km.privatePem = km'.privatePem ∧ km.publicPem = km'.publicPem := by
    simpa [KeyMaterial.files] using hf.symm.trans hf'
  rw [hpriv, hpub, hl'] at hl
  exact (Option.some.inj hl).symm

/-- **One signing key.** Every process that has ever loaded its keys has the same, those of the files,
and no process fails to start. -/
theorem key_stable (hc : c.Works) (h : ((lts c).restrict Alone).Reachable s) :
    (∀ x ∈ s.procs, ∀ y ∈ s.procs, ∀ km km', x.ready = some km → y.ready = some km' →
      km = km' ∧ s.files = km.files) ∧
    ∀ x ∈ s.procs, x.pc ≠ .raised :=
  ⟨fun _ hx _ hy _ _ hr hr' => ⟨ready_eq hc h hx hy hr hr', (ready_files hc h hx hr).1⟩,
    (settled hc h).raised⟩

instance (s : System Priv) (l : Lbl Priv) : Decidable (s.Alone l) :=
  match l with
  | .start => inferInstanceAs (Decidable (∀ x ∈ s.procs, x.starts = none))
  | .replace _ => inferInstanceAs (Decidable False)
  | .next _ _ => inferInstanceAs (Decidable True)
  | .crash _ => inferInstanceAs (Decidable True)

end System
/-- A key of one byte, which is its PEM. -/
def byteKeys : Crypto UInt8 where
  privateBytes key := [key]
  publicBytes key := [key]
  loadPemPrivateKey
    | [key] => some key
    | _ => none
  publicNumbers key := ⟨key.toNat, 65537⟩
  hexdigest data :=
    String.ofList ((data.map fun b => Nat.digitChar (b.toNat % 16)).take 64 ++
      List.replicate (64 - data.length) '0')

theorem byteKeys_works : byteKeys.Works where
  load_privateBytes _ := rfl
  hexdigest_length data := by
    simp only [byteKeys, String.length_ofList, List.length_append, List.length_take, List.length_map,
      List.length_replicate]
    omega

/-- Two processes that crash while they write the files, and two that start after them. -/
def restarts : List (Lbl UInt8) :=
  [.start, .next 0 7, .next 0 7, .crash 0] ++
  [.start] ++ List.replicate 5 (.next 1 9) ++ [.crash 1] ++
  [.start] ++ List.replicate 4 (.next 2 8) ++ [.start] ++ List.replicate 4 (.next 3 8)

theorem restarts_stable : ∃ s, ((System.lts byteKeys).restrict System.Alone).Reachable s ∧
    (s.procs.filterMap Proc.ready).length = 2 ∧
    (∀ x ∈ s.procs, ∀ y ∈ s.procs, ∀ km km', x.ready = some km → y.ready = some km' →
      km = km' ∧ s.files = km.files) ∧
    ∀ x ∈ s.procs, x.pc ≠ .raised := by
  have hinit : System.init byteKeys { files := {} } := ⟨rfl, by simp [System.Loadable]⟩
  obtain ⟨s, hs, hp⟩ : ∃ s, ((System.lts byteKeys).restrict System.Alone).Reachable s ∧
      decide ((s.procs.filterMap Proc.ready).length = 2) = true :=
    LTS.reachable_of_execG restarts hinit (by decide +kernel)
  exact ⟨s, hs, of_decide_eq_true hp, System.key_stable byteKeys_works hs⟩

end Keys
end Gestalt.Auth
