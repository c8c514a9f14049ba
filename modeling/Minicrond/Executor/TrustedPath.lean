import Minicrond.Library.Words

/-! The trusted executable search path: `resolve` follows a path component by component as the kernel does and
insists that root owns everything on the way. -/

namespace Minicrond.Executor.TrustedPath

open Minicrond.Library

/-! ## Files -/

abbrev Name := List ℕ

abbrev Place := List Name

inductive Kind
  | directory
  | regular
  | symlink
  | other
  deriving DecidableEq

structure Info where
  kind : Kind
  -- No owner when the platform's stat record is missing.
  uid : Option ℕ
  perm : ℕ
  deriving DecidableEq

inductive Errno
  | notExist
  | other
  deriving DecidableEq

structure FileSystem where
  lstat : Place → Except Errno Info
  readlink : Place → Except Errno Name
  root : ∀ info, lstat [] = .ok info → info.kind = .directory

inductive Distrust
  | ownershipUnavailable
  | writable
  | special
  deriving DecidableEq

inductive ResolveError
  | malformed
  | errno (e : Errno)
  | untrusted (place : Place) (why : Distrust)
  | tooManySymlinks
  | notDirectory (place : Place)
  deriving DecidableEq

def trusted (info : Info) : Except Distrust Unit :=
  match info.uid with
  | none => .error .ownershipUnavailable
  | some uid =>
    if uid ≠ 0 ∨ info.perm &&& 0o022 ≠ 0 then .error .writable
    else if info.kind ≠ .directory ∧ info.kind ≠ .regular then .error .special
    else .ok ()

/-! ## Resolving a path -/

def slash : ℕ := '/'.toNat

def isAbs (path : Name) : Bool := path.head? = some slash

abbrev parts (path : Name) : List Name := path.splitOn slash

/-- The loop of `resolve` between two symlinks, where `follow` goes on behind a symlink if one more is allowed. -/
def walkParts (fs : FileSystem) (follow : Option (List Name → Place → Except ResolveError Place)) :
    List Name → Place → Except ResolveError Place
  | [], current => .ok current
  | part :: rest, current =>
    if part = [] ∨ part = text "." then walkParts fs follow rest current
    else if part = text ".." then walkParts fs follow rest current.dropLast
    else
      match fs.lstat (current ++ [part]) with
      | .error e => .error (.errno e)
      | .ok info =>
        if info.kind = .symlink then
          match follow with
          | none => .error .tooManySymlinks
          | some follow =>
            match fs.readlink (current ++ [part]) with
            | .error e => .error (.errno e)
            | .ok target => follow (parts target ++ rest) (if isAbs target then [] else current)
        else if rest ≠ [] ∧ info.kind ≠ .directory then .error (.notDirectory (current ++ [part]))
        else
          match trusted info with
          | .error why => .error (.untrusted (current ++ [part]) why)
          | .ok () => walkParts fs follow rest (current ++ [part])

def walk (fs : FileSystem) : ℕ → List Name → Place → Except ResolveError Place
  | 0 => walkParts fs none
  | links + 1 => walkParts fs (some (walk fs links))

def resolve (fs : FileSystem) (path : Name) : Except ResolveError (Place × Info) :=
  if !isAbs path ∨ ':'.toNat ∈ path ∨ path.length > 4096 then .error .malformed
  else
    match fs.lstat [] with
    | .error e => .error (.errno e)
    | .ok info =>
      match trusted info with
      | .error why => .error (.untrusted [] why)
      | .ok () =>
        match walk fs 40 (parts path) [] with
        | .error e => .error e
        | .ok current =>
          match fs.lstat current with
          | .error e => .error (.errno e)
          | .ok info => .ok (current, info)

/-! ## How the kernel walks a path -/

def FileSystem.IsDir (fs : FileSystem) (p : Place) : Prop := ∃ info, fs.lstat p = .ok info ∧ info.kind = .directory

def FileSystem.Trusts (fs : FileSystem) (p : Place) : Prop := ∃ info, fs.lstat p = .ok info ∧ trusted info = .ok ()

structure Named (part : Name) : Prop where
  ne_nil : part ≠ []
  ne_dot : part ≠ text "."
  ne_dots : part ≠ text ".."

/-- The names lead from one place to another over so many symlinks, and all that is entered satisfies `P`. -/
inductive Walks (fs : FileSystem) (P : Place → Prop) : ℕ → List Name → Place → Place → Prop
  | done (p : Place) : Walks fs P 0 [] p p
  | stay {n : ℕ} {part : Name} {rest : List Name} {p q : Place} : part = [] ∨ part = text "." → fs.IsDir p →
      Walks fs P n rest p q → Walks fs P n (part :: rest) p q
  | up {n : ℕ} {rest : List Name} {p q : Place} : fs.IsDir p →
      Walks fs P n rest p.dropLast q → Walks fs P n (text ".." :: rest) p q
  | enter {n : ℕ} {part : Name} {rest : List Name} {p q : Place} {info : Info} :
      Named part → fs.IsDir p → fs.lstat (p ++ [part]) = .ok info → info.kind ≠ .symlink →
      P (p ++ [part]) → Walks fs P n rest (p ++ [part]) q → Walks fs P n (part :: rest) p q
  | link {n : ℕ} {part target : Name} {rest : List Name} {p q : Place} {info : Info} :
      Named part → fs.IsDir p → fs.lstat (p ++ [part]) = .ok info → info.kind = .symlink →
      fs.readlink (p ++ [part]) = .ok target →
      Walks fs P n (parts target ++ rest) (if isAbs target then [] else p) q →
        Walks fs P (n + 1) (part :: rest) p q

/-- The kernel's walk of the path follows at most 40 symlinks, enters nothing that is not trusted and ends here. -/
structure FileSystem.Reaches (fs : FileSystem) (path : Name) (q : Place) : Prop where
  abs : isAbs path = true
  colon : ':'.toNat ∉ path
  length : path.length ≤ 4096
  root : fs.Trusts []
  walk : ∃ n ≤ 40, Walks fs fs.Trusts n (parts path) [] q

structure FileSystem.Safe (fs : FileSystem) (p : Place) : Prop where
  trusts : ∀ r, r <+: p → fs.Trusts r
  above : ∀ r, r <+: p → r ≠ p → fs.IsDir r

section

variable {fs : FileSystem} {n : ℕ} {path part : Name} {names rest : List Name} {p q r : Place} {info : Info}
  {P : Place → Prop}

lemma isDir_root (h : fs.Trusts []) : fs.IsDir [] := by
  obtain ⟨info, hl, _⟩ := h
  exact ⟨info, hl, fs.root info hl⟩

lemma safe_root (h : fs.Trusts []) : fs.Safe [] := by
  refine ⟨fun r hr => ?_, fun r hr hne => ?_⟩
  · rw [List.prefix_nil.mp hr]
    exact h
  · exact absurd (List.prefix_nil.mp hr) hne

lemma FileSystem.Safe.dropLast (h : fs.Safe p) : fs.Safe p.dropLast := by
  refine ⟨fun r hr => h.trusts r (hr.trans p.dropLast_prefix), fun r hr hne => ?_⟩
  apply h.above r (hr.trans p.dropLast_prefix)
  rintro rfl
  exact hne (hr.eq_of_length_le (by simp))

lemma FileSystem.Safe.isDir_dropLast (h : fs.Safe p) : fs.IsDir p.dropLast := by
  rcases List.eq_nil_or_concat p with rfl | ⟨r, x, rfl⟩
  · exact isDir_root (h.trusts [] (List.prefix_refl _))
  · rw [List.concat_eq_append, List.dropLast_concat] at *
    exact h.above r (List.prefix_append _ _) (by simp)

lemma FileSystem.Safe.enter (h : fs.Safe p) (hd : fs.IsDir p) (ht : fs.Trusts (p ++ [part])) :
    fs.Safe (p ++ [part]) := by
  refine ⟨fun r hr => ?_, fun r hr hne => ?_⟩
  · rcases List.prefix_concat_iff.mp hr with rfl | hr
    · exact ht
    · exact h.trusts r hr
  · rcases List.prefix_concat_iff.mp hr with rfl | hr
    · exact absurd rfl hne
    · by_cases he : r = p
      · exact he ▸ hd
      · exact h.above r hr he

lemma FileSystem.Safe.restart {b : Bool} (h : fs.Safe p) : fs.Safe (if b then [] else p) := by
  cases b with
  | false => exact h
  | true => exact safe_root (h.trusts [] List.nil_prefix)

lemma FileSystem.IsDir.restart {b : Bool} (h : fs.IsDir p) (hs : fs.Safe p) : fs.IsDir (if b then [] else p) := by
  cases b with
  | false => exact h
  | true => exact isDir_root (hs.trusts [] List.nil_prefix)

lemma Walks.isDir (h : Walks fs P n names p q) (hn : names ≠ []) : fs.IsDir p := by
  cases h with
  | done => exact absurd rfl hn
  | stay _ hd | up hd | enter _ hd | link _ hd => exact hd

lemma Walks.safe (h : Walks fs fs.Trusts n names p q) (hs : fs.Safe p) : fs.Safe q := by
  induction h with
  | done => exact hs
  | stay _ _ _ ih => exact ih hs
  | up _ _ ih => exact ih hs.dropLast
  | enter _ hd _ _ ht _ ih => exact ih (hs.enter hd ht)
  | link _ _ _ _ _ _ ih => exact ih hs.restart

/-! ## The loop walks as the kernel does -/

lemma Named.not_stay (h : Named part) : ¬(part = [] ∨ part = text ".") := not_or.mpr ⟨h.ne_nil, h.ne_dot⟩

lemma walks_stay_iff (hpart : part = [] ∨ part = text ".") (hd : fs.IsDir p) :
    Walks fs P n (part :: rest) p q ↔ Walks fs P n rest p q := by
  refine ⟨fun h => ?_, .stay hpart hd⟩
  cases h with
  | stay _ _ h => exact h
  | up => exact absurd hpart (by decide)
  | enter h | link h => exact absurd hpart h.not_stay

lemma walks_up_iff (hd : fs.IsDir p) : Walks fs P n (text ".." :: rest) p q ↔ Walks fs P n rest p.dropLast q := by
  refine ⟨fun h => ?_, .up hd⟩
  cases h with
  | stay h => exact absurd h (by decide)
  | up _ h => exact h
  | enter h | link h => exact absurd rfl h.ne_dots

lemma walks_enter_iff (hpart : Named part) (hd : fs.IsDir p) (hl : fs.lstat (p ++ [part]) = .ok info)
    (hk : info.kind ≠ .symlink) :
    Walks fs P n (part :: rest) p q ↔ P (p ++ [part]) ∧ Walks fs P n rest (p ++ [part]) q := by
  refine ⟨fun h => ?_, fun h => .enter hpart hd hl hk h.1 h.2⟩
  cases h with
  | stay h => exact absurd h hpart.not_stay
  | up => exact absurd rfl hpart.ne_dots
  | enter _ _ _ _ hp h => exact ⟨hp, h⟩
  | link _ _ hl' hk' =>
    obtain rfl := Except.ok.inj (hl.symm.trans hl')
    exact absurd hk' hk

lemma walks_link_iff {target : Name} (hpart : Named part) (hd : fs.IsDir p)
    (hl : fs.lstat (p ++ [part]) = .ok info) (hk : info.kind = .symlink)
    (ht : fs.readlink (p ++ [part]) = .ok target) :
    Walks fs P n (part :: rest) p q ↔
      ∃ m, n = m + 1 ∧ Walks fs P m (parts target ++ rest) (if isAbs target then [] else p) q := by
  constructor
  · intro h
    cases h with
    | stay h => exact absurd h hpart.not_stay
    | up => exact absurd rfl hpart.ne_dots
    | enter _ _ hl' hk' =>
      obtain rfl := Except.ok.inj (hl.symm.trans hl')
      exact absurd hk hk'
    | link _ _ _ _ ht' h =>
      obtain rfl := Except.ok.inj (ht.symm.trans ht')
      exact ⟨_, rfl, h⟩
  · rintro ⟨m, rfl, h⟩
    exact .link hpart hd hl hk ht h

lemma Walks.named (h : Walks fs P n (part :: rest) p q) (hpart : Named part) :
    ∃ info, fs.lstat (p ++ [part]) = .ok info ∧
      (info.kind = .symlink → 0 < n ∧ ∃ target, fs.readlink (p ++ [part]) = .ok target) := by
  cases h with
  | stay h => exact absurd h hpart.not_stay
  | up => exact absurd rfl hpart.ne_dots
  | enter _ _ hl hk => exact ⟨_, hl, fun h => absurd h hk⟩
  | link _ _ hl _ ht => exact ⟨_, hl, fun _ => ⟨Nat.succ_pos _, _, ht⟩⟩

def Follows (fs : FileSystem) (budget : ℕ) (f : List Name → Place → Except ResolveError Place) : Prop :=
  ∀ names p q, fs.Safe p → (names ≠ [] → fs.IsDir p) →
    (f names p = .ok q ↔ ∃ n ≤ budget, Walks fs fs.Trusts n names p q)

inductive Allows (fs : FileSystem) : ℕ → Option (List Name → Place → Except ResolveError Place) → Prop
  | none : Allows fs 0 none
  | some {budget : ℕ} {f : List Name → Place → Except ResolveError Place} :
      Follows fs budget f → Allows fs (budget + 1) (some f)

section

variable {follow : Option (List Name → Place → Except ResolveError Place)}

lemma walkParts_cons_ok (h : walkParts fs follow (part :: rest) p = .ok q) (hpart : Named part) :
    ∃ info, fs.lstat (p ++ [part]) = .ok info := by
  rw [walkParts.eq_def] at h
  simp only [hpart.not_stay, hpart.ne_dots, if_false] at h
  cases hl : fs.lstat (p ++ [part]) with
  | error e => simp [hl] at h
  | ok info => exact ⟨info, rfl⟩

lemma walkParts_link_iff (hpart : Named part) (hl : fs.lstat (p ++ [part]) = .ok info)
    (hk : info.kind = .symlink) :
    walkParts fs follow (part :: rest) p = .ok q ↔
      ∃ f target, follow = some f ∧ fs.readlink (p ++ [part]) = .ok target ∧
        f (parts target ++ rest) (if isAbs target then [] else p) = .ok q := by
  rw [walkParts.eq_def]
  simp only [hpart.not_stay, hpart.ne_dots, hl, hk, if_false, if_true]
  cases follow with
  | none => simp
  | some f => cases fs.readlink (p ++ [part]) <;> simp

lemma walkParts_enter_iff (hpart : Named part) (hl : fs.lstat (p ++ [part]) = .ok info)
    (hk : info.kind ≠ .symlink) :
    walkParts fs follow (part :: rest) p = .ok q ↔ (rest ≠ [] → fs.IsDir (p ++ [part])) ∧
      fs.Trusts (p ++ [part]) ∧ walkParts fs follow rest (p ++ [part]) = .ok q := by
  have hd : fs.IsDir (p ++ [part]) ↔ info.kind = .directory := by simp [FileSystem.IsDir, hl]
  have ht : fs.Trusts (p ++ [part]) ↔ trusted info = .ok () := by simp [FileSystem.Trusts, hl]
  rw [walkParts.eq_def, hd, ht]
  simp only [hpart.not_stay, hpart.ne_dots, hl, hk, if_false]
  split_ifs with hfile
  · simp [hfile]
  · cases trusted info with
    | error why => simp
    | ok u => simpa using fun _ => not_and_not_right.mp hfile

end

lemma walkParts_follows {budget : ℕ} {follow : Option (List Name → Place → Except ResolveError Place)}
    (hf : Allows fs budget follow) : Follows fs budget (walkParts fs follow) := by
  intro names
  induction names with
  | nil =>
    intro p q _ _
    rw [walkParts, Except.ok.injEq]
    constructor
    · rintro rfl
      exact ⟨0, Nat.zero_le _, .done p⟩
    · rintro ⟨n, _, h⟩
      cases h
      rfl
  | cons part rest ih =>
    intro p q hs hd
    have hdir := hd (List.cons_ne_nil _ _)
    by_cases hstay : part = [] ∨ part = text "."
    · simp only [walks_stay_iff hstay hdir, walkParts.eq_def fs follow (part :: rest), hstay, if_true]
      exact ih p q hs fun _ => hdir
    by_cases hup : part = text ".."
    · subst hup
      simp only [walks_up_iff hdir, walkParts.eq_def fs follow (_ :: rest), hstay, if_false, if_true]
      exact ih _ q hs.dropLast fun _ => hs.isDir_dropLast
    have hpart : Named part := ⟨fun h => hstay (.inl h), fun h => hstay (.inr h), hup⟩
    cases hl : fs.lstat (p ++ [part]) with
    | error e =>
      constructor
      · intro h
        obtain ⟨info, hl'⟩ := walkParts_cons_ok h hpart
        simp [hl] at hl'
      · rintro ⟨n, _, h⟩
        obtain ⟨info, hl', _⟩ := h.named hpart
        simp [hl] at hl'
    | ok info =>
      by_cases hk : info.kind = .symlink
      · rw [walkParts_link_iff hpart hl hk]
        constructor
        · rintro ⟨f, target, rfl, ht, h⟩
          cases hf with
          | some hf =>
            obtain ⟨m, hm, h⟩ := (hf _ _ _ hs.restart fun _ => hdir.restart hs).mp h
            exact ⟨m + 1, by omega, (walks_link_iff hpart hdir hl hk ht).mpr ⟨m, rfl, h⟩⟩
        · rintro ⟨n, hn, h⟩
          obtain ⟨info', hl', hlink⟩ := h.named hpart
          obtain rfl := Except.ok.inj (hl.symm.trans hl')
          obtain ⟨hpos, target, ht⟩ := hlink hk
          obtain ⟨m, rfl, hm⟩ := (walks_link_iff hpart hdir hl hk ht).mp h
          cases hf with
          | none => omega
          | some hf =>
            exact ⟨_, target, rfl, ht, (hf _ _ _ hs.restart fun _ => hdir.restart hs).mpr ⟨m, by omega, hm⟩⟩
      · simp only [walkParts_enter_iff hpart hl hk, walks_enter_iff hpart hdir hl hk]
        constructor
        · rintro ⟨hd', ht, h⟩
          obtain ⟨n, hn, h⟩ := (ih _ q (hs.enter hdir ht) hd').mp h
          exact ⟨n, hn, ht, h⟩
        · rintro ⟨n, hn, ht, h⟩
          -- A walk that goes on goes on from a directory.
          exact ⟨h.isDir, ht, (ih _ q (hs.enter hdir ht) h.isDir).mpr ⟨n, hn, h⟩⟩

lemma walk_follows (budget : ℕ) : Follows fs budget (walk fs budget) := by
  induction budget with
  | zero => exact walkParts_follows .none
  | succ budget ih => exact walkParts_follows (.some ih)

lemma walk_root_iff (h : fs.Trusts []) :
    walk fs 40 (parts path) [] = .ok q ↔ ∃ n ≤ 40, Walks fs fs.Trusts n (parts path) [] q :=
  walk_follows 40 _ _ _ (safe_root h) fun _ => isDir_root h

lemma resolve_ok (h : resolve fs path = .ok (q, info)) : fs.Reaches path q ∧ fs.lstat q = .ok info := by
  rw [resolve.eq_def] at h
  split_ifs at h with hform
  simp only [not_or, Bool.not_eq_true', Bool.not_eq_false, not_lt] at hform
  cases hl : fs.lstat [] with
  | error e => simp [hl] at h
  | ok top =>
    cases ht : trusted top with
    | error why => simp [hl, ht] at h
    | ok u =>
      have htop : fs.Trusts [] := ⟨top, hl, ht⟩
      cases hw : walk fs 40 (parts path) [] with
      | error e => simp [hl, ht, hw] at h
      | ok current =>
        cases hq : fs.lstat current with
        | error e => simp [hl, ht, hw, hq] at h
        | ok found =>
          simp only [hl, ht, hw, hq, Except.ok.injEq, Prod.mk.injEq] at h
          obtain ⟨rfl, rfl⟩ := h
          exact ⟨⟨hform.1, hform.2.1, hform.2.2, htop, (walk_root_iff htop).mp hw⟩, hq⟩

end

/-- Resolving a path succeeds exactly when the kernel's walk of it follows at most 40 symlinks and enters nothing
that is not trusted, and gives the place where that walk ends. -/
theorem resolve_ok_iff (fs : FileSystem) (path : Name) (q : Place) (info : Info) :
    resolve fs path = .ok (q, info) ↔ fs.Reaches path q ∧ fs.lstat q = .ok info := by
  refine ⟨resolve_ok, fun ⟨h, hq⟩ => ?_⟩
  obtain ⟨top, hl, ht⟩ := h.root
  rw [resolve, if_neg (by simpa using ⟨h.abs, h.colon, h.length⟩)]
  simp only [hl, ht, (walk_root_iff h.root).mpr h.walk, hq]

/-! ## Looking a program up -/

inductive LookError
  | notBare
  | resolving (e : ResolveError)
  | notFound
  deriving DecidableEq

def ResolveError.isNotExist : ResolveError → Bool
  | .errno .notExist => true
  | _ => false

def candidate (dir program : Name) : Name := dir.rdropWhile (· = slash) ++ slash :: program

def executable (info : Info) : Bool := info.kind = .regular && info.perm &&& 0o111 ≠ 0

def search (fs : FileSystem) (program : Name) : List Name → Except LookError Place
  | [] => .error .notFound
  | dir :: dirs =>
    match resolve fs (candidate dir program) with
    | .error e => if e.isNotExist then search fs program dirs else .error (.resolving e)
    | .ok (path, info) => if executable info then .ok path else search fs program dirs

def lookPath (fs : FileSystem) (program : Name) (dirs : List Name) : Except LookError Place :=
  if program = [] ∨ slash ∈ program then .error .notBare else search fs program dirs

def Passed (fs : FileSystem) (path : Name) : Prop :=
  (∃ e, resolve fs path = .error e ∧ e.isNotExist = true) ∨
    ∃ q info, resolve fs path = .ok (q, info) ∧ executable info = false

section

variable {fs : FileSystem} {program : Name} {q : Place}

lemma trusted_ok {info : Info} (h : trusted info = .ok ()) : info.uid = some 0 ∧ info.perm &&& 0o022 = 0 := by
  unfold trusted at h
  cases hu : info.uid with
  | none => simp [hu] at h
  | some uid =>
    simp only [hu] at h
    split_ifs at h with hw
    rw [not_or, not_not, not_not] at hw
    exact ⟨by rw [hw.1], hw.2⟩

lemma resolve_safe {path : Name} {info : Info} (h : resolve fs path = .ok (q, info)) : fs.Safe q := by
  obtain ⟨h, _⟩ := resolve_ok h
  obtain ⟨n, _, hw⟩ := h.walk
  exact hw.safe (safe_root h.root)

lemma search_ok {dirs : List Name} (h : search fs program dirs = .ok q) :
    ∃ before dir after info, dirs = before ++ dir :: after ∧ (∀ d ∈ before, Passed fs (candidate d program)) ∧
      resolve fs (candidate dir program) = .ok (q, info) ∧ executable info = true := by
  induction dirs with
  | nil => simp [search] at h
  | cons dir dirs ih =>
    have step (hp : Passed fs (candidate dir program)) (h : search fs program dirs = .ok q) :
        ∃ before d after info, dir :: dirs = before ++ d :: after ∧
          (∀ d ∈ before, Passed fs (candidate d program)) ∧
          resolve fs (candidate d program) = .ok (q, info) ∧ executable info = true := by
      obtain ⟨before, d, after, info, rfl, hb, hd⟩ := ih h
      exact ⟨dir :: before, d, after, info, rfl, List.forall_mem_cons.mpr ⟨hp, hb⟩, hd⟩
    rw [search] at h
    cases hr : resolve fs (candidate dir program) with
    | error e =>
      simp only [hr] at h
      split_ifs at h with he
      exact step (.inl ⟨e, hr, he⟩) h
    | ok r =>
      simp only [hr] at h
      split_ifs at h with he
      · obtain rfl := Except.ok.inj h
        exact ⟨[], dir, dirs, r.2, rfl, by simp, hr, he⟩
      · exact step (.inr ⟨r.1, r.2, hr, by simpa using he⟩) h

end

/-- A program that is found is an executable file of the first directory that has one; root alone can write it and
every directory above it, and none of them is a symlink. -/
theorem lookPath_trusted (fs : FileSystem) (program : Name) (dirs : List Name) (q : Place)
    (h : lookPath fs program dirs = .ok q) :
    (∃ before dir after info, dirs = before ++ dir :: after ∧ (∀ d ∈ before, Passed fs (candidate d program)) ∧
      resolve fs (candidate dir program) = .ok (q, info)) ∧
    (∃ info, fs.lstat q = .ok info ∧ info.kind = .regular ∧ info.perm &&& 0o111 ≠ 0) ∧
    ∀ r, r <+: q → ∃ info, fs.lstat r = .ok info ∧ info.uid = some 0 ∧ info.perm &&& 0o022 = 0 ∧
      (r ≠ q → info.kind = .directory) := by
  unfold lookPath at h
  split_ifs at h
  obtain ⟨before, dir, after, info, hdirs, hb, hr, he⟩ := search_ok h
  have hsafe := resolve_safe hr
  obtain ⟨_, hl⟩ := resolve_ok hr
  refine ⟨⟨before, dir, after, info, hdirs, hb, hr⟩, ⟨info, hl, by simpa [executable] using he⟩, fun r hpre => ?_⟩
  obtain ⟨info, hl, ht⟩ := hsafe.trusts r hpre
  obtain ⟨hu, hp⟩ := trusted_ok ht
  refine ⟨info, hl, hu, hp, fun hne => ?_⟩
  obtain ⟨info', hl', hk⟩ := hsafe.above r hpre hne
  rwa [Except.ok.inj (hl.symm.trans hl')]

theorem lookPath_trusted_sh : ∃ fs q, lookPath fs (text "sh") [text "/sbin", text "/bin/"] = .ok q ∧
    ∃ info, fs.lstat q = .ok info ∧ info.kind = .regular ∧ info.perm &&& 0o111 ≠ 0 := by
  let fs : FileSystem :=
    { lstat := fun p =>
        if p = [] ∨ p = [text "bin"] then .ok ⟨.directory, some 0, 0o755⟩
        else if p = [text "bin", text "sh"] then .ok ⟨.regular, some 0, 0o755⟩
        else .error .notExist
      readlink := fun _ => .error .other
      root := by simp +contextual [eq_comm] }
  have h : lookPath fs (text "sh") [text "/sbin", text "/bin/"] = .ok [text "bin", text "sh"] := by decide
  exact ⟨fs, _, h, (lookPath_trusted fs _ _ _ h).2.1⟩

end Minicrond.Executor.TrustedPath
