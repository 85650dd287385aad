import RegistryBindings.Storage.Publishing
import RegistryBindings.Proofs.Registry.Requirement
import RegistryBindings.Proofs.Registry.Membership
import RegistryBindings.Proofs.Markup.Writing
import RegistryBindings.Proofs.Registry.Document
import RegistryBindings.Proofs.Registry.RoundTrip
import RegistryBindings.Proofs.Markup.Elements
import RegistryBindings.Proofs.Registry.Acceptance
import RegistryBindings.Proofs.Storage.FileSystem
import RegistryBindings.Proofs.Storage.Publishing
import RegistryBindings.Proofs.Artifact.Lines
import RegistryBindings.Proofs.Artifact.LoaderStruct.Listings
import RegistryBindings.Proofs.Artifact.TypeShape
import RegistryBindings.Proofs.Artifact.Signature
import RegistryBindings.Proofs.Artifact.EnumBlocks
import RegistryBindings.Proofs.Artifact.BlockLines
import RegistryBindings.Proofs.Artifact.StaticExtension
import RegistryBindings.Proofs.Artifact.Description
import RegistryBindings.Proofs.Artifact.Closure
import RegistryBindings.Proofs.Storage.Atomicity
import RegistryBindings.Proofs.Registry.Collecting
import RegistryBindings.Proofs.Registry.Interleaving
import RegistryBindings.Proofs.Registry.Agreement
import RegistryBindings.Proofs.Registry.Pruning
import RegistryBindings.Proofs.Registry.Deletion
import RegistryBindings.Proofs.Registry.Trimming
import RegistryBindings.Proofs.Registry.VoidElements
import RegistryBindings.Proofs.Registry.Widening
import RegistryBindings.Proofs.Artifact.EnumsLayout
import RegistryBindings.Proofs.Registry.UnknownElements
import RegistryBindings.Proofs.Registry.Additions
import RegistryBindings.Proofs.Registry.CutOff
import RegistryBindings.Proofs.Registry.InheritedGroups
import RegistryBindings.Proofs.Artifact.MemberIdentifiers
import RegistryBindings.Proofs.Registry.DeclaredTypes
import RegistryBindings.Proofs.Artifact.Indirection
import RegistryBindings.Proofs.Artifact.EnumLiterals
import RegistryBindings.Proofs.Registry.ItemSpellings
import RegistryBindings.Proofs.Artifact.LoaderNames
import RegistryBindings.Proofs.Artifact.ParameterNames
import RegistryBindings.Proofs.Artifact.Bracketing
import RegistryBindings.Proofs.Registry.OwnEnd
