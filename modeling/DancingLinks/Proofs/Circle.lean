import DancingLinks.Proofs.Links
import Mathlib.Data.List.Perm.Subperm

/-! Circles of roles: roles of an arena, each seated on a site of its own, whose sites are a loop. What
an arena does to one circle is said in the roles alone: a role is bypassed or put beside the start, and
every circle without the roles at whose sites a link was pointed is as before. -/
namespace DancingLinks

namespace Torus

structure Circle (torus : Torus) (seat : Role → Site) (direction : Direction) (start : Role)
    (others : List Role) : Prop where
  loop : Loop (torus.link direction) (torus.link direction.opposite) (seat start) (others.map seat)
  seated : ∀ role ∈ start :: others, torus.roleAt (seat role) = some role
  distinct : (start :: others).Nodup

variable {torus after : Torus} {seat : Role → Site} {direction : Direction} {start role : Role}
  {others touched before rest : List Role}

theorem seatApart {first second : Role} (found : torus.roleAt (seat first) = some first)
    (there : torus.roleAt (seat second) = some second) (same : seat first = seat second) :
    first = second := by
  rw [same, there] at found
  exact (Option.some.inj found).symm

theorem seatsDistinct {roles : List Role} (seated : ∀ role ∈ roles, torus.roleAt (seat role) = some role)
    (distinct : roles.Nodup) : (roles.map seat).Nodup :=
  distinct.map_on fun _ first _ second same => seatApart (seated _ first) (seated _ second) same

theorem seatsRoom {roles : List Role} (seated : ∀ role ∈ roles, torus.roleAt (seat role) = some role)
    (distinct : roles.Nodup) : roles.length ≤ torus.cells.size := by
  have within : roles.map seat ⊆ List.range torus.cells.size := by
    intro site member
    obtain ⟨role, inside, rfl⟩ := List.mem_map.mp member
    exact List.mem_range.mpr (roleInside (seated role inside))
  simpa using (List.subperm_of_subset (seatsDistinct seated distinct) within).length_le

theorem Apart.keepsCircle (apart : torus.Apart after direction (touched.map seat))
    (moved : ∀ role ∈ touched, torus.roleAt (seat role) = some role)
    (loop : Loop (torus.link direction) (torus.link direction.opposite) (seat start) (others.map seat))
    (seated : ∀ role ∈ start :: others, torus.roleAt (seat role) = some role)
    (absent : ∀ role ∈ start :: others, role ∉ touched) :
    Loop (after.link direction) (after.link direction.opposite) (seat start) (others.map seat) := by
  refine apart.loopAside loop fun site member hit => ?_
  obtain ⟨role, inside, rfl⟩ := List.mem_map.mp (List.map_cons ▸ member)
  obtain ⟨twin, there, same⟩ := List.mem_map.mp hit
  have equal := seatApart (moved twin there) (seated role inside) same
  exact absent role inside (equal ▸ there)

theorem Apart.keepsLoneCircle (apart : torus.Apart after direction (touched.map seat))
    (moved : ∀ role ∈ touched, torus.roleAt (seat role) = some role)
    (loop : Loop (torus.link direction) (torus.link direction.opposite) (seat role) [])
    (found : torus.roleAt (seat role) = some role) (absent : role ∉ touched) :
    Loop (after.link direction) (after.link direction.opposite) (seat role) [] := by
  have whole : Loop (torus.link direction) (torus.link direction.opposite) (seat role)
      (([] : List Role).map seat) := loop
  exact apart.keepsCircle moved whole (List.forall_mem_singleton.mpr found)
    (List.forall_mem_singleton.mpr absent)

namespace Circle

theorem sitesDistinct (circle : torus.Circle seat direction start others) :
    (seat start :: others.map seat).Nodup := seatsDistinct circle.seated circle.distinct

theorem circleOpposite (circle : torus.Circle seat direction start others) :
    torus.Circle seat direction.opposite start others.reverse where
  loop := by
    rw [direction.oppositeTwice, List.map_reverse]
    exact circle.loop.loopReversed
  seated role member := circle.seated role (by simpa using member)
  distinct := by simpa using circle.distinct

theorem fewerThanCells (circle : torus.Circle seat direction start others) :
    others.length < torus.cells.size :=
  seatsRoom circle.seated circle.distinct

theorem ringRead (circle : torus.Circle seat direction start others) :
    torus.ring (seat start) direction = .ok (others.map seat) := by
  refine walkOfChain circle.loop ?_ (List.nodup_cons.mp circle.sitesDistinct).1 ?_
  · intro site member
    obtain ⟨role, inside, rfl⟩ := List.mem_map.mp (List.map_cons ▸ member)
    rw [circle.seated role inside]
    rfl
  · rw [List.length_map]
    exact circle.fewerThanCells

theorem linkMember (circle : torus.Circle seat direction start others) (member : role ∈ start :: others) :
    torus.link direction (seat role) ∈ (start :: others).map seat :=
  circle.loop.leadsInside (List.mem_map_of_mem member)

theorem backMember (circle : torus.Circle seat direction start others) (member : role ∈ start :: others) :
    torus.link direction.opposite (seat role) ∈ (start :: others).map seat :=
  circle.loop.leadsBackInside (List.mem_map_of_mem member)

theorem siteInside (circle : torus.Circle seat direction start others) {site : Site}
    (member : site ∈ (start :: others).map seat) : site < torus.cells.size := by
  obtain ⟨role, inside, rfl⟩ := List.mem_map.mp member
  exact roleInside (circle.seated role inside)

theorem onwardInside (circle : torus.Circle seat direction start others)
    (member : role ∈ start :: others) : torus.link direction (seat role) < torus.cells.size :=
  circle.siteInside (circle.linkMember member)

theorem backInside (circle : torus.Circle seat direction start others)
    (member : role ∈ start :: others) : torus.link direction.opposite (seat role) < torus.cells.size :=
  circle.siteInside (circle.backMember member)

theorem linkInverse (circle : torus.Circle seat direction start others) (member : role ∈ start :: others) :
    torus.link direction (torus.link direction.opposite (seat role)) = seat role ∧
      torus.link direction.opposite (torus.link direction (seat role)) = seat role :=
  circle.loop.joinedAround (List.mem_map_of_mem member)

theorem bypassedApart (circle : torus.Circle seat direction start others)
    (member : role ∈ start :: others) :
    torus.Apart (torus.bypassed direction (seat role)) direction ((start :: others).map seat) := by
  refine (Torus.bypassedApart direction (circle.backInside member) (circle.onwardInside member)).mono ?_
  intro site hit
  rcases List.mem_cons.mp hit with rfl | hit
  · exact circle.backMember member
  · exact List.mem_singleton.mp hit ▸ circle.linkMember member

theorem circleBypassed (circle : torus.Circle seat direction start (before ++ role :: rest)) :
    (torus.bypassed direction (seat role)).Circle seat direction start (before ++ rest) where
  loop := by
    have member : role ∈ start :: (before ++ role :: rest) := by simp
    have loop := circle.loop
    have distinct := circle.sitesDistinct
    simp only [List.map_append, List.map_cons] at loop distinct ⊢
    rw [linkBypassed (circle.backInside member), linkBypassedBack (circle.onwardInside member)]
    exact loop.loopRemoved distinct
  seated := by
    rw [roleBypassed]
    intro other member
    refine circle.seated other ?_
    simp only [List.mem_cons, List.mem_append] at member ⊢
    tauto
  distinct := circle.distinct.sublist (by simp)

theorem insertedApart (circle : torus.Circle seat direction start others)
    (found : torus.roleAt (seat role) = some role) :
    torus.Apart (torus.insertedBeside (seat start) direction (seat role)) direction
      ((role :: start :: others).map seat) := by
  have top := roleInside (circle.seated start List.mem_cons_self)
  have next := circle.linkMember List.mem_cons_self
  refine (Torus.insertedApart direction top (roleInside found) (circle.siteInside next)).mono ?_
  intro site hit
  rcases List.mem_cons.mp hit with rfl | hit
  · exact List.mem_cons_self
  · rcases List.mem_cons.mp hit with rfl | hit
    · exact List.mem_cons_of_mem _ List.mem_cons_self
    · exact List.mem_cons_of_mem _ (List.mem_singleton.mp hit ▸ next)

theorem insertedFirst (circle : torus.Circle seat direction start others)
    (found : torus.roleAt (seat role) = some role) (absent : role ∉ start :: others) :
    (torus.insertedBeside (seat start) direction (seat role)).Circle seat direction start
      (role :: others) where
  loop := by
    have top := roleInside (circle.seated start List.mem_cons_self)
    have inside := roleInside found
    have fresh : seat role ∉ seat start :: others.map seat := by
      intro hit
      obtain ⟨twin, there, same⟩ := List.mem_map.mp (List.map_cons ▸ hit)
      exact absent (seatApart (circle.seated twin there) found same ▸ there)
    rw [linkInserted top inside, linkInsertedBack inside (circle.onwardInside List.mem_cons_self)]
    exact circle.loop.loopInserted circle.sitesDistinct fresh
  seated := by
    rw [roleInserted]
    intro other member
    rcases List.mem_cons.mp member with rfl | member
    · exact circle.seated other List.mem_cons_self
    · rcases List.mem_cons.mp member with rfl | member
      · exact found
      · exact circle.seated other (List.mem_cons_of_mem _ member)
  distinct := by
    obtain ⟨first, rest⟩ := List.nodup_cons.mp circle.distinct
    obtain ⟨other, clear⟩ := not_or.mp (mt List.mem_cons.mpr absent)
    refine List.nodup_cons.mpr ⟨?_, List.nodup_cons.mpr ⟨clear, rest⟩⟩
    intro member
    rcases List.mem_cons.mp member with same | member
    · exact other same.symm
    · exact first member

theorem insertedLast (circle : torus.Circle seat direction start others)
    (found : torus.roleAt (seat role) = some role) (absent : role ∉ start :: others) :
    (torus.insertedBeside (seat start) direction.opposite (seat role)).Circle seat direction start
      (others ++ [role]) := by
  have added := (circle.circleOpposite.insertedFirst found (by simpa using absent)).circleOpposite
  rwa [direction.oppositeTwice, List.reverse_cons, List.reverse_reverse] at added

theorem followedApart (circle : torus.Circle seat direction start others)
    (found : torus.roleAt (seat role) = some role) :
    torus.Apart (torus.insertedBeside (seat start) direction.opposite (seat role)) direction
      ((role :: start :: others).map seat) := by
  have apart := (circle.circleOpposite.insertedApart found).flip
  rw [direction.oppositeTwice] at apart
  refine apart.mono (List.map_subset _ fun other member => ?_)
  simpa using member

end Circle

end Torus

end DancingLinks
