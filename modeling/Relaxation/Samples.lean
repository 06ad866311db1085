/-!
# Sample scenarios

Scenarios that can be run by name when no file of that name exists.
-/

namespace Relaxation.Samples

/-- A chain that hangs between two points under gravity. -/
def hangingChain : String :=
"# Five-link chain pinned at both ends, pulled down by gravity,
# kept above a floor at z = -2.
solver:
  node_merge_threshold: 1.0e-3
  iteration_count: 10
  damping_factor: 0.9
  enable_momentum: true

execution:
  max_iterations: 5000
  kinetic_energy_threshold: 1.0e-14

goals:
  - type: anchor
    position: [0.0, 0.0, 0.0]
    weight: 100.0
  - type: anchor
    position: [4.0, 0.0, 0.0]
    weight: 100.0
  - type: length
    start: [0.0, 0.0, 0.0]
    end: [1.0, 0.0, 0.0]
  - type: length
    start: [1.0, 0.0, 0.0]
    end: [2.0, 0.0, 0.0]
  - type: length
    start: [2.0, 0.0, 0.0]
    end: [3.0, 0.0, 0.0]
  - type: length
    start: [3.0, 0.0, 0.0]
    end: [4.0, 0.0, 0.0]
  - type: force
    points: [[1.0, 0.0, 0.0], [2.0, 0.0, 0.0], [3.0, 0.0, 0.0]]
    force: [0.0, 0.0, -0.05]
  - type: floor
    points: [[1.0, 0.0, 0.0], [2.0, 0.0, 0.0], [3.0, 0.0, 0.0]]
    height: -2.0
    weight: 10.0

binders:
  - type: polyline
    points: [[0.0, 0.0, 0.0], [1.0, 0.0, 0.0], [2.0, 0.0, 0.0], [3.0, 0.0, 0.0], [4.0, 0.0, 0.0]]
"

/-- A tetrahedron of springs, inflated and at rest on a floor. -/
def balloon : String :=
"# Tetrahedron inflated by constant-volume pressure against edge springs,
# resting on the floor.
solver:
  damping_factor: 0.8

execution:
  max_iterations: 3000
  kinetic_energy_threshold: 1.0e-12

goals:
  - type: constant_volume_pressure
    vertices: [[0.0, 0.0, 0.0], [1.0, 0.0, 0.0], [0.0, 1.0, 0.0], [0.0, 0.0, 1.0]]
    faces: [[0, 2, 1], [0, 1, 3], [0, 3, 2], [1, 2, 3]]
    volume_constant: 0.05
  - type: length
    start: [0.0, 0.0, 0.0]
    end: [1.0, 0.0, 0.0]
  - type: length
    start: [0.0, 0.0, 0.0]
    end: [0.0, 1.0, 0.0]
  - type: length
    start: [0.0, 0.0, 0.0]
    end: [0.0, 0.0, 1.0]
  - type: length
    start: [1.0, 0.0, 0.0]
    end: [0.0, 1.0, 0.0]
  - type: length
    start: [1.0, 0.0, 0.0]
    end: [0.0, 0.0, 1.0]
  - type: length
    start: [0.0, 1.0, 0.0]
    end: [0.0, 0.0, 1.0]
  - type: floor
    points: [[0.0, 0.0, 0.0], [1.0, 0.0, 0.0], [0.0, 1.0, 0.0], [0.0, 0.0, 1.0]]

binders:
  - type: mesh
    vertices: [[0.0, 0.0, 0.0], [1.0, 0.0, 0.0], [0.0, 1.0, 0.0], [0.0, 0.0, 1.0]]
    faces: [[0, 2, 1], [0, 1, 3], [0, 3, 2], [1, 2, 3]]
"

/-- A pentagon that becomes cocircular while one of its angles opens. -/
def circleAndAngle : String :=
"# A rough pentagon made co-circular while one corner is opened up to 120 degrees.
solver:
  enable_momentum: false

execution:
  max_iterations: 2000
  kinetic_energy_threshold: 1.0e-16

goals:
  - type: cocircular
    points:
      - [1.0, 0.0, 0.0]
      - [0.3, 0.9, 0.1]
      - [-0.8, 0.6, 0.0]
      - [-0.9, -0.5, -0.1]
      - [0.2, -1.1, 0.0]
  - type: angle
    a: [1.0, 0.0, 0.0]
    vertex: [0.3, 0.9, 0.1]
    c: [-0.8, 0.6, 0.0]
    angle: 2.0943951023931953
    weight: 0.5
  - type: anchor
    position: [1.0, 0.0, 0.0]
    weight: 10.0

binders:
  - type: polyline
    closed: true
    points:
      - [1.0, 0.0, 0.0]
      - [0.3, 0.9, 0.1]
      - [-0.8, 0.6, 0.0]
      - [-0.9, -0.5, -0.1]
      - [0.2, -1.1, 0.0]
"

/-- The sample scenario of a name. -/
def named? : String → Option String
  | "hanging_chain.yaml" => some hangingChain
  | "balloon.yaml" => some balloon
  | "circle_and_angle.yaml" => some circleAndAngle
  | _ => none

/-- The name of the folder that the samples lie in. -/
def folder : String := "scenarios"

/-- Follows the parts of a path, from the folder of the samples or, if `inside` is not set, from
the one around it. -/
def follow? (inside : Bool) : List String → Option String
  | [] => none
  | [name] => if inside then named? name else none
  | part :: path =>
    if part == "" || part == "." then follow? inside path
    else if inside && part == ".." then follow? false path
    else if !inside && part == folder then follow? true path
    else none

/-- The sample scenario at a path relative to the folder of the samples. -/
def find? (path : String) : Option String :=
  if path.startsWith "/" then none else follow? true (path.splitOn "/")

end Relaxation.Samples
