import JavaCallGraph.Catalog.Jdk.Record

/-!
# The built-in catalog: java.util
-/

set_option autoImplicit false

namespace JavaCallGraph.Catalog.Jdk

/-- `java.util.Iterator`. -/
def iteratorType : CompiledType where
  name := "java.util.Iterator"
  isInterface := true
  superclass := none
  interfaces := []
  methods := [
    method "hasNext" [] "boolean",
    method "next" [] "java.lang.Object",
    method "remove" [] "void"]
  fields := []

/-- `java.util.Collection`. -/
def collectionType : CompiledType where
  name := "java.util.Collection"
  isInterface := true
  superclass := none
  interfaces := ["java.lang.Iterable"]
  methods := [
    method "size" [] "int",
    method "isEmpty" [] "boolean",
    method "contains" ["java.lang.Object"] "boolean",
    method "add" ["java.lang.Object"] "boolean",
    method "remove" ["java.lang.Object"] "boolean",
    method "addAll" ["java.util.Collection"] "boolean",
    method "clear" [] "void",
    method "stream" [] "java.util.stream.Stream",
    method "toArray" [] "java.lang.Object[]"]
  fields := []

/-- `java.util.List`. -/
def listType : CompiledType where
  name := "java.util.List"
  isInterface := true
  superclass := none
  interfaces := ["java.util.Collection"]
  methods := [
    method "size" [] "int",
    method "isEmpty" [] "boolean",
    method "contains" ["java.lang.Object"] "boolean",
    method "add" ["java.lang.Object"] "boolean",
    method "remove" ["java.lang.Object"] "boolean",
    method "addAll" ["java.util.Collection"] "boolean",
    method "clear" [] "void",
    method "get" ["int"] "java.lang.Object",
    method "set" ["int", "java.lang.Object"] "java.lang.Object",
    method "add" ["int", "java.lang.Object"] "void",
    method "remove" ["int"] "java.lang.Object",
    method "indexOf" ["java.lang.Object"] "int",
    method "subList" ["int", "int"] "java.util.List",
    method "sort" ["java.util.Comparator"] "void",
    static "of" [] "java.util.List",
    static "of" ["java.lang.Object"] "java.util.List",
    static "of" ["java.lang.Object", "java.lang.Object"] "java.util.List",
    staticVarargs "of" ["java.lang.Object[]"] "java.util.List",
    static "copyOf" ["java.util.Collection"] "java.util.List"]
  fields := []

/-- `java.util.Set`. -/
def setType : CompiledType where
  name := "java.util.Set"
  isInterface := true
  superclass := none
  interfaces := ["java.util.Collection"]
  methods := [staticVarargs "of" ["java.lang.Object[]"] "java.util.Set"]
  fields := []

/-- `java.util.Queue`. -/
def queueType : CompiledType where
  name := "java.util.Queue"
  isInterface := true
  superclass := none
  interfaces := ["java.util.Collection"]
  methods := [
    method "offer" ["java.lang.Object"] "boolean",
    method "poll" [] "java.lang.Object",
    method "peek" [] "java.lang.Object"]
  fields := []

/-- `java.util.Deque`. -/
def dequeType : CompiledType where
  name := "java.util.Deque"
  isInterface := true
  superclass := none
  interfaces := ["java.util.Queue"]
  methods := [
    method "push" ["java.lang.Object"] "void",
    method "pop" [] "java.lang.Object",
    method "addFirst" ["java.lang.Object"] "void",
    method "addLast" ["java.lang.Object"] "void"]
  fields := []

/-- `java.util.AbstractCollection`. -/
def abstractCollectionType : CompiledType where
  name := "java.util.AbstractCollection"
  isInterface := false
  superclass := none
  interfaces := ["java.util.Collection"]
  methods := []
  fields := []

/-- `java.util.AbstractList`. -/
def abstractListType : CompiledType where
  name := "java.util.AbstractList"
  isInterface := false
  superclass := some "java.util.AbstractCollection"
  interfaces := ["java.util.List"]
  methods := []
  fields := []

/-- `java.util.ArrayList`. -/
def arrayListType : CompiledType where
  name := "java.util.ArrayList"
  isInterface := false
  superclass := some "java.util.AbstractList"
  interfaces := ["java.util.List", "java.io.Serializable", "java.lang.Cloneable"]
  methods := [method "ensureCapacity" ["int"] "void", method "trimToSize" [] "void"]
  fields := []

/-- `java.util.LinkedList`. -/
def linkedListType : CompiledType where
  name := "java.util.LinkedList"
  isInterface := false
  superclass := some "java.util.AbstractList"
  interfaces := ["java.util.List", "java.util.Deque", "java.io.Serializable"]
  methods := []
  fields := []

/-- `java.util.AbstractSet`. -/
def abstractSetType : CompiledType where
  name := "java.util.AbstractSet"
  isInterface := false
  superclass := some "java.util.AbstractCollection"
  interfaces := ["java.util.Set"]
  methods := []
  fields := []

/-- `java.util.HashSet`. -/
def hashSetType : CompiledType where
  name := "java.util.HashSet"
  isInterface := false
  superclass := some "java.util.AbstractSet"
  interfaces := ["java.util.Set", "java.io.Serializable"]
  methods := []
  fields := []

/-- `java.util.LinkedHashSet`. -/
def linkedHashSetType : CompiledType where
  name := "java.util.LinkedHashSet"
  isInterface := false
  superclass := some "java.util.HashSet"
  interfaces := ["java.util.Set"]
  methods := []
  fields := []

/-- `java.util.TreeSet`. -/
def treeSetType : CompiledType where
  name := "java.util.TreeSet"
  isInterface := false
  superclass := some "java.util.AbstractSet"
  interfaces := ["java.util.Set"]
  methods := []
  fields := []

/-- `java.util.ArrayDeque`. -/
def arrayDequeType : CompiledType where
  name := "java.util.ArrayDeque"
  isInterface := false
  superclass := some "java.util.AbstractCollection"
  interfaces := ["java.util.Deque"]
  methods := []
  fields := []

/-- `java.util.Map`. -/
def mapType : CompiledType where
  name := "java.util.Map"
  isInterface := true
  superclass := none
  interfaces := []
  methods := [
    method "get" ["java.lang.Object"] "java.lang.Object",
    method "put" ["java.lang.Object", "java.lang.Object"] "java.lang.Object",
    method "remove" ["java.lang.Object"] "java.lang.Object",
    method "containsKey" ["java.lang.Object"] "boolean",
    method "containsValue" ["java.lang.Object"] "boolean",
    method "size" [] "int",
    method "isEmpty" [] "boolean",
    method "keySet" [] "java.util.Set",
    method "values" [] "java.util.Collection",
    method "entrySet" [] "java.util.Set",
    method "getOrDefault" ["java.lang.Object", "java.lang.Object"] "java.lang.Object",
    method "putIfAbsent" ["java.lang.Object", "java.lang.Object"] "java.lang.Object",
    method "computeIfAbsent" ["java.lang.Object", "java.util.function.Function"] "java.lang.Object",
    method "forEach" ["java.util.function.BiConsumer"] "void",
    method "clear" [] "void",
    static "of" [] "java.util.Map",
    static "of" ["java.lang.Object", "java.lang.Object"] "java.util.Map"]
  fields := []

/-- `java.util.Map$Entry`. -/
def mapEntryType : CompiledType where
  name := "java.util.Map$Entry"
  isInterface := true
  superclass := none
  interfaces := []
  methods := [
    method "getKey" [] "java.lang.Object",
    method "getValue" [] "java.lang.Object",
    method "setValue" ["java.lang.Object"] "java.lang.Object"]
  fields := []

/-- `java.util.AbstractMap`. -/
def abstractMapType : CompiledType where
  name := "java.util.AbstractMap"
  isInterface := false
  superclass := none
  interfaces := ["java.util.Map"]
  methods := []
  fields := []

/-- `java.util.HashMap`. -/
def hashMapType : CompiledType where
  name := "java.util.HashMap"
  isInterface := false
  superclass := some "java.util.AbstractMap"
  interfaces := ["java.util.Map", "java.io.Serializable", "java.lang.Cloneable"]
  methods := []
  fields := []

/-- `java.util.LinkedHashMap`. -/
def linkedHashMapType : CompiledType where
  name := "java.util.LinkedHashMap"
  isInterface := false
  superclass := some "java.util.HashMap"
  interfaces := ["java.util.Map"]
  methods := []
  fields := []

/-- `java.util.TreeMap`. -/
def treeMapType : CompiledType where
  name := "java.util.TreeMap"
  isInterface := false
  superclass := some "java.util.AbstractMap"
  interfaces := ["java.util.Map"]
  methods := []
  fields := []

/-- `java.util.Optional`. -/
def optionalType : CompiledType where
  name := "java.util.Optional"
  isInterface := false
  superclass := none
  interfaces := []
  methods := [
    static "of" ["java.lang.Object"] "java.util.Optional",
    static "ofNullable" ["java.lang.Object"] "java.util.Optional",
    static "empty" [] "java.util.Optional",
    method "isPresent" [] "boolean",
    method "isEmpty" [] "boolean",
    method "get" [] "java.lang.Object",
    method "orElse" ["java.lang.Object"] "java.lang.Object",
    method "orElseGet" ["java.util.function.Supplier"] "java.lang.Object",
    method "orElseThrow" [] "java.lang.Object",
    method "map" ["java.util.function.Function"] "java.util.Optional",
    method "filter" ["java.util.function.Predicate"] "java.util.Optional",
    method "ifPresent" ["java.util.function.Consumer"] "void"]
  fields := []

/-- `java.util.Objects`. -/
def objectsType : CompiledType where
  name := "java.util.Objects"
  isInterface := false
  superclass := none
  interfaces := []
  methods := [
    static "equals" ["java.lang.Object", "java.lang.Object"] "boolean",
    staticVarargs "hash" ["java.lang.Object[]"] "int",
    static "hashCode" ["java.lang.Object"] "int",
    static "isNull" ["java.lang.Object"] "boolean",
    static "nonNull" ["java.lang.Object"] "boolean",
    static "requireNonNull" ["java.lang.Object"] "java.lang.Object",
    static "requireNonNull" ["java.lang.Object", "java.lang.String"] "java.lang.Object",
    static "toString" ["java.lang.Object"] "java.lang.String"]
  fields := []

/-- `java.util.Arrays`. -/
def arraysType : CompiledType where
  name := "java.util.Arrays"
  isInterface := false
  superclass := none
  interfaces := []
  methods := [
    staticVarargs "asList" ["java.lang.Object[]"] "java.util.List",
    static "sort" ["int[]"] "void",
    static "sort" ["java.lang.Object[]"] "void",
    static "toString" ["int[]"] "java.lang.String",
    static "toString" ["java.lang.Object[]"] "java.lang.String",
    static "stream" ["java.lang.Object[]"] "java.util.stream.Stream",
    static "fill" ["int[]", "int"] "void"]
  fields := []

/-- `java.util.Collections`. -/
def collectionsType : CompiledType where
  name := "java.util.Collections"
  isInterface := false
  superclass := none
  interfaces := []
  methods := [
    static "emptyList" [] "java.util.List",
    static "emptyMap" [] "java.util.Map",
    static "emptySet" [] "java.util.Set",
    static "singletonList" ["java.lang.Object"] "java.util.List",
    static "unmodifiableList" ["java.util.List"] "java.util.List",
    static "sort" ["java.util.List"] "void",
    static "reverse" ["java.util.List"] "void"]
  fields := []

/-- `java.util.Comparator`. -/
def comparatorType : CompiledType where
  name := "java.util.Comparator"
  isInterface := true
  superclass := none
  interfaces := []
  methods := [
    method "compare" ["java.lang.Object", "java.lang.Object"] "int",
    method "reversed" [] "java.util.Comparator"]
  fields := []

/-- `java.util.Random`. -/
def randomType : CompiledType where
  name := "java.util.Random"
  isInterface := false
  superclass := none
  interfaces := ["java.io.Serializable"]
  methods := [
    method "nextInt" [] "int",
    method "nextInt" ["int"] "int",
    method "nextLong" [] "long",
    method "nextDouble" [] "double",
    method "nextBoolean" [] "boolean"]
  fields := []

/-- `java.util.UUID`. -/
def uUIDType : CompiledType where
  name := "java.util.UUID"
  isInterface := false
  superclass := none
  interfaces := ["java.io.Serializable", "java.lang.Comparable"]
  methods := [
    static "randomUUID" [] "java.util.UUID",
    method "toString" [] "java.lang.String",
    static "fromString" ["java.lang.String"] "java.util.UUID"]
  fields := []

/-- The described types of java.util. -/
def util : List CompiledType :=
  [iteratorType, collectionType, listType, setType, queueType, dequeType, abstractCollectionType,
   abstractListType, arrayListType, linkedListType, abstractSetType, hashSetType,
   linkedHashSetType, treeSetType, arrayDequeType, mapType, mapEntryType, abstractMapType,
   hashMapType, linkedHashMapType, treeMapType, optionalType, objectsType, arraysType,
   collectionsType, comparatorType, randomType, uUIDType]

end JavaCallGraph.Catalog.Jdk
